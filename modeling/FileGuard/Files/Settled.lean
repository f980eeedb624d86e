import FileGuard.Files.SecureFile

/-! Where no power is lost, what is pending may as well be durable: the machine on settled worlds. -/

namespace FileGuard.Files

open Store CrashLogic

variable {host : Host} {allowed : World → Choice → Prop} {path : Path}

namespace World

def settled (w : World) : World :=
  { w with durable := w.names, pending := [], dirty := fun _ => false }

@[simp] theorem settled_settled (w : World) : w.settled.settled = w.settled := rfl

@[simp] theorem settled_store (w : World) : w.settled.store = w.store := rfl

@[simp] theorem settled_file (w : World) (slot : Slot) : w.settled.file slot = w.file slot := rfl

theorem record_names (w : World) (assigns : List (Slot × Option ObjectId)) :
    (w.record assigns).names = assigns.foldl (fun names a => assign names a.1 a.2) w.names := by
  simp [record, names, Change.apply, List.foldl_append]

theorem synced_names (w : World) (directory : Path) (durable : Names) :
    (w.pending.map (Change.synced directory)).foldl Change.apply durable =
      w.pending.foldl Change.apply durable := by
  induction w.pending generalizing durable with
  | nil => rfl
  | cons change rest ih => exact ih _

theorem settled_eq_iff {w v : World} : w.settled = v.settled ↔ w.store = v.store ∧ w.names = v.names ∧
    w.objects = v.objects ∧ w.next = v.next ∧ w.directories = v.directories ∧ w.ghost = v.ghost := by
  simp [settled]

theorem record_congr {w v : World} (h : w.settled = v.settled) (assigns : List (Slot × Option ObjectId)) :
    (w.record assigns).settled = (v.record assigns).settled := by
  rw [settled_eq_iff] at *
  refine ⟨h.1, ?_, h.2.2⟩
  rw [record_names, record_names, h.2.1]

theorem expose_congr {w v : World} (h : w.settled = v.settled) (slot : Slot) (object : ObjectId) :
    (w.expose slot object).settled = (v.expose slot object).settled := by
  cases slot with
  | staged directory name => exact h
  | «at» path =>
    rw [settled_eq_iff] at *
    obtain ⟨hs, hn, ho, hx, hd, hg⟩ := h
    exact ⟨hs, hn, ho, hx, hd, by simp only [expose, hg]⟩

theorem removeName_congr (w : World) (c : Choice) (slot : Slot) (object : ObjectId) :
    (w.settled.removeName c slot object).settled = (w.removeName c slot object).settled := by
  refine record_congr ?_ _
  rfl

theorem moveName_congr (w : World) (c : Choice) (old new : Slot) (object : ObjectId) :
    (w.settled.moveName c old new object).settled = (w.moveName c old new object).settled := by
  refine expose_congr (record_congr ?_ _) _ _
  rfl

theorem swapNames_congr (w : World) (c : Choice) (old new : Slot) (moved displaced : ObjectId) :
    (w.settled.swapNames c old new moved displaced).settled =
      (w.swapNames c old new moved displaced).settled := by
  refine expose_congr (expose_congr (record_congr ?_ _) _ _) _ _
  rfl

theorem create_congr (w : World) (c : Choice) (slot : Slot) :
    (w.settled.create host c slot).settled = (w.create host c slot).settled := by
  refine record_congr ?_ _
  rfl

theorem settle_congr {α : Type} (w : World) (c : Choice) (fileId : Path) (what : String) (answer : α)
    (body : StoreResult Entry) :
    (w.settled.commitEntry c fileId what answer body).1 = (w.commitEntry c fileId what answer body).1 ∧
      (w.settled.commitEntry c fileId what answer body).2.settled =
        (w.commitEntry c fileId what answer body).2.settled := by
  unfold commitEntry
  cases body with
  | error error => exact ⟨rfl, rfl⟩
  | ok after =>
    rcases c.answer with _ | message | ⟨committed, message⟩
    · exact ⟨rfl, rfl⟩
    · exact ⟨rfl, rfl⟩
    · cases committed <;> exact ⟨rfl, rfl⟩

/-- The machine does the same to a world and to the settled one. -/
theorem exec_settled (w : World) (c : Choice) (o : Op) :
    (w.settled.exec host c o).1 = (w.exec host c o).1 ∧
      (w.settled.exec host c o).2.settled = (w.exec host c o).2.settled := by
  have hl (slot : Slot) : w.settled.lookup slot = w.lookup slot := rfl
  have he (directory : Path) : w.settled.entriesOf directory = w.entriesOf directory := rfl
  have hd : w.settled.directories = w.directories := rfl
  have ho : w.settled.objects = w.objects := rfl
  cases o with
  | load fileId =>
    simp only [exec]
    cases c.answer <;> exact ⟨rfl, rfl⟩
  | commit fileId expected next => exact settle_congr w c fileId _ _ _
  | beginFinalization fileId expected marker => exact settle_congr w c fileId _ _ _
  | finishFinalization fileId expected => exact settle_congr w c fileId _ _ _
  | randomToken | parentStat | observe _ | fstat _ | readToEnd _ | listXattrs _ | entries _ =>
    exact ⟨rfl, rfl⟩
  | openFile slot =>
    simp only [exec, hl]
    cases w.lookup slot <;> exact ⟨rfl, rfl⟩
  | createDirectory directory device =>
    simp only [exec]
    cases validateRoot host c directory device <;> exact ⟨rfl, rfl⟩
  | openDirectory directory device =>
    simp only [exec, hd]
    cases validateTrustedAncestors host c directory with
    | error error => exact ⟨rfl, rfl⟩
    | ok _ => split_ifs <;> exact ⟨rfl, rfl⟩
  | removeDirectory directory =>
    simp only [exec, he]
    split_ifs <;> exact ⟨rfl, rfl⟩
  | createExclusive slot =>
    simp only [exec, hl, hd]
    split_ifs
    · exact ⟨rfl, rfl⟩
    · exact ⟨rfl, create_congr w c slot⟩
    · exact ⟨rfl, rfl⟩
  | alter file alteration =>
    cases alteration with
    | write contents =>
      simp only [exec]
      by_cases h : contents.length < 2 ^ 63
      · simp only [h, ↓reduceIte]
        exact ⟨trivial, rfl⟩
      · simp only [h, ↓reduceIte]
        exact ⟨trivial, rfl⟩
    | _ => exact ⟨rfl, rfl⟩
  | syncFile file => exact ⟨rfl, rfl⟩
  | syncDirectory directory =>
    refine ⟨rfl, settled_eq_iff.mpr ⟨rfl, ?_, rfl, rfl, rfl, rfl⟩⟩
    exact (synced_names w directory w.durable).symm
  | renameNoreplace old new =>
    simp only [exec, hl]
    cases w.lookup old with
    | none => exact ⟨rfl, rfl⟩
    | some object =>
      simp only
      split_ifs
      · exact ⟨rfl, rfl⟩
      · exact ⟨rfl, moveName_congr w c old new object⟩
  | renameExchange old new =>
    simp only [exec, hl]
    cases w.lookup old with
    | none => exact ⟨rfl, rfl⟩
    | some moved =>
      cases w.lookup new with
      | none => exact ⟨rfl, rfl⟩
      | some displaced => exact ⟨rfl, swapNames_congr w c old new moved displaced⟩
  | unlink slot =>
    simp only [exec, hl]
    cases w.lookup slot with
    | none => exact ⟨rfl, rfl⟩
    | some object => exact ⟨rfl, removeName_congr w c slot object⟩
  | removeVerified slot expected =>
    simp only [exec, hl, ho]
    cases w.lookup slot with
    | none => exact ⟨rfl, rfl⟩
    | some object =>
      simp only
      split_ifs
      · exact ⟨rfl, removeName_congr w c slot object⟩
      · exact ⟨rfl, rfl⟩

end World

/-- The coordinator alone, on settled worlds. -/
def calm (host : Host) (allowed : World → Choice → Prop) : Machine signature World where
  step o w r w' := ∃ c, allowed w c ∧ (w.exec host c o).1 = r ∧ (w.exec host c o).2.settled = w'
  rely := Eq
  rely_refl _ := rfl

theorem wp_alone_of_calm {ε α : Type} {G : World → World → Prop} {p : Prog signature ε α}
    {Q : Except ε α → World → Prop} {w : World}
    (hallowed : ∀ w c, allowed w c → allowed w.settled c)
    (h : wp (calm host allowed) G p Q w.settled) :
    wp (alone host allowed) (fun w w' => G w.settled w'.settled) p (fun r w' => Q r w'.settled) w := by
  induction p generalizing w with
  | pure a => exact h
  | fail e => exact h
  | call o k ih =>
    rintro w₁ rfl r w₂ ⟨c, hc, he⟩
    obtain ⟨hanswer, hafter⟩ := @World.exec_settled host w c o
    rw [he] at hanswer hafter
    obtain ⟨hg, hk⟩ := h w.settled rfl r w₂.settled ⟨c, hallowed w c hc, hanswer, hafter⟩
    exact ⟨hg, ih r hk⟩

theorem wp_perform_calm {ε : Type} {G : World → World → Prop} {w : World} {o : Op}
    {Q : Except ε o.Resp → World → Prop} :
    wp (calm host allowed) G (perform o) Q w ↔ ∀ c, allowed w c →
      G w (w.exec host c o).2.settled ∧ Q (.ok (w.exec host c o).1) (w.exec host c o).2.settled := by
  constructor
  · intro h c hc
    exact h w rfl _ _ ⟨c, hc, rfl, rfl⟩
  · rintro h w₁ rfl r w₂ ⟨c, hc, rfl, rfl⟩
    exact h c hc

end FileGuard.Files
