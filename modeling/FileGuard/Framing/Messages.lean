import FileGuard.Framing.Bounded

/-! Messages on a stream, one to a line, under a limit on the length of a line with its separator. -/

namespace Framing

/-- A text form of messages; either direction may be refused. -/
structure Codec (α β ε : Type) where
  encode : α → Except ε (List β)
  decode : List β → Except ε α

/-- The text form serves this message: its text has no separator in it and is read back as the message. -/
structure Codec.Serves {α β ε : Type} (codec : Codec α β ε) (sep : β) (message : α) : Prop where
  sep_notMem : ∀ text, codec.encode message = .ok text → sep ∉ text
  decode_encode : ∀ text, codec.encode message = .ok text → codec.decode text = .ok message

section

variable {α β ε : Type} {codec : Codec α β ε} {sep : β} {tooLong : ε} {max : ℕ} {written : Except ε Unit} {message : α}
  {line : List β}

/-- The line that goes to the peer; `written` is what writing it answers. -/
def Codec.writeMessage (codec : Codec α β ε) (sep : β) (tooLong : ε) (max : ℕ) (written : Except ε Unit) (message : α) :
    Except ε (List β) :=
  match codec.encode message with
  | .error error => .error error
  | .ok text =>
    if max < text.length + 1 then .error tooLong
    else match written with
      | .error error => .error error
      | .ok _ => .ok (text ++ [sep])

theorem Codec.writeMessage_eq_ok (h : codec.writeMessage sep tooLong max written message = .ok line) :
    ∃ text, codec.encode message = .ok text ∧ text.length < max ∧ line = text ++ [sep] := by
  unfold writeMessage at h
  split at h
  · cases h
  · next text htext =>
    split_ifs at h with hlen
    split at h
    · cases h
    · cases h
      exact ⟨text, htext, Nat.not_lt.mp hlen, rfl⟩

end

/-- What a reader says of a stream that gives it no message. -/
structure Refusals (ε : Type) where
  closed : ε
  tooLong : ε
  unterminated : ε

variable {α ε : Type} [DecidableEq α] {sep : α} {refusals : Refusals ε} {max : ℕ} {stream : Incoming α ε} {text rest : List α}

/-- Takes one byte more than a message may have, and looks at what it got. -/
def Incoming.readMessage (sep : α) (refusals : Refusals ε) (max : ℕ) (stream : Incoming α ε) : Except ε (List α) :=
  match stream.readLine sep (max + 1) with
  | .error error => .error error
  | .ok held =>
    if held.length = 0 then .error refusals.closed
    else if max < held.length then .error refusals.tooLong
    else if held.getLast? ≠ some sep then .error refusals.unterminated
    else .ok held.dropLast

theorem Incoming.readMessage_of_line (hinput : stream.input = text ++ sep :: rest) (htext : sep ∉ text)
    (hlen : text.length ≤ max) :
    stream.readMessage sep refusals max = if max ≤ text.length then .error refusals.tooLong else .ok text := by
  rw [readMessage, readLine_of_line hinput htext (by omega)]
  simp only [List.length_append, List.length_singleton, Nat.add_one_ne_zero, if_false, Nat.lt_add_one_iff,
    List.getLast?_append, List.getLast?_singleton, Option.some_or, ne_eq, not_true_eq_false, List.dropLast_concat]

/-- A message is read exactly where the first separator ends a line that keeps the limit. -/
theorem Incoming.readMessage_eq_ok :
    stream.readMessage sep refusals max = .ok text ↔
      ∃ rest, stream.input = text ++ sep :: rest ∧ sep ∉ text ∧ text.length < max := by
  constructor
  · intro h
    by_cases hmem : sep ∈ stream.input.take (max + 1)
    · obtain ⟨line, more, htake, hline⟩ := List.eq_append_cons_of_mem hmem
      have hinput : stream.input = line ++ sep :: (more ++ stream.input.drop (max + 1)) := by
        rw [← List.cons_append, ← List.append_assoc, ← htake, List.take_append_drop]
      have hlen : line.length ≤ max := by
        have hbound := List.length_take_le (max + 1) stream.input
        rw [htake, List.length_append, List.length_cons] at hbound
        omega
      rw [readMessage_of_line hinput hline hlen] at h
      split_ifs at h with hfull
      cases h
      exact ⟨_, hinput, hline, Nat.lt_of_not_le hfull⟩
    · cases hread : stream.readLine sep (max + 1) with
      | error error =>
        rw [readMessage, hread] at h
        cases h
      | ok held =>
        have hheld := (readLine_of_notMem hmem hread).1
        have hlast : held.getLast? ≠ some sep := fun hlast => hheld (List.mem_of_getLast? hlast)
        rw [readMessage, hread] at h
        simp only [hlast, ne_eq, not_false_eq_true, if_true] at h
        split_ifs at h
  · rintro ⟨rest, hinput, htext, hlen⟩
    rw [readMessage_of_line hinput htext (Nat.le_of_lt hlen), if_neg (Nat.not_le.mpr hlen)]

variable {β : Type} {codec : Codec β α ε} {tooLong : ε} {written : Except ε Unit} {message : β} {line : List α}

/-- What a writer accepts comes out of the reader, however the line is cut and whatever follows it. -/
theorem Incoming.readMessage_written (h : codec.Serves sep message)
    (hline : codec.writeMessage sep tooLong max written message = .ok line) (hinput : stream.input = line ++ rest) :
    ∃ text, stream.readMessage sep refusals max = .ok text ∧ codec.decode text = .ok message := by
  obtain ⟨text, htext, hlen, rfl⟩ := Codec.writeMessage_eq_ok hline
  refine ⟨text, readMessage_eq_ok.mpr ⟨rest, ?_, h.sep_notMem text htext, hlen⟩, h.decode_encode text htext⟩
  rw [hinput, List.append_assoc, List.singleton_append]

end Framing
