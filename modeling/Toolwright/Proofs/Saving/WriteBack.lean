import Toolwright.Proofs.Files.Places
import Toolwright.Saving

/-!
Writing back as a change of the files. Either nothing can be read or written and nothing changes, or
the outcome tells what happened to which file. The path that was written to leads to the same file
afterwards, and the description is still read as what it was or as what was written; so writing the
same text back once more changes nothing.
-/

namespace Toolwright

open Files (Tree)

namespace Files.Tree

theorem put_put (t : Tree) (at_ : Location) (first last : Entry) :
    (t.put at_ first).put at_ last = t.put at_ last := by
  simp [put, List.filter_filter]

theorem readText_of_writeText {t t' : Tree} {p : Path} {text : String}
    (write : t.writeText p text = .ok t') : t'.readText p = .ok text :=
  readText_eq_ok.2 (locate_of_writeText write)

theorem writeText_again {t t' : Tree} {p : Path} {text : String}
    (write : t.writeText p text = .ok t') : t'.writeText p text = .ok t' := by
  obtain ⟨found, way⟩ := locate_of_writeText write
  obtain ⟨at_, target, rfl⟩ := writeText_eq_ok.1 write
  obtain rfl : found = at_ := Leads.unique ⟨_, way⟩ (leads_of_fileTarget target _)
  exact writeText_eq_ok.2 ⟨found, fileTarget_file way, (put_put ..).symm⟩

end Files.Tree

namespace Saving

variable {t t' : Tree} {file : Path} {old fresh : String} {dryRun : Bool}

/-- A text has to be written: it may be, and the description is not the same text already. -/
def IsDue (old fresh : String) (dryRun : Bool) : Prop :=
  dryRun = false ∧ ¬ (target old fresh = .description ∧ old = fresh)

instance : Decidable (IsDue old fresh dryRun) := inferInstanceAs (Decidable (_ ∧ _))

def told (file : Path) (old fresh : String) (written : Bool) : Outcome where
  target := target old fresh
  path := destination file (target old fresh)
  written := written
  oldLines := Text.lineCount old.toList
  freshLines := Text.lineCount fresh.toList

theorem writeBack_of_error {fault : Files.Fault} (read : t.readText file = .error fault) :
    writeBack t file fresh dryRun = (.error (.serialize file (.fault fault)), t) := by
  simp only [writeBack, read]

theorem IsDue.needed (due : IsDue old fresh dryRun) :
    ¬ (dryRun = true ∨ (target old fresh = .description ∧ old = fresh)) := by
  rintro (dry | same)
  · exact absurd due.1 (by simp [dry])
  · exact due.2 same

theorem writeBack_of_not_due (read : t.readText file = .ok old) (idle : ¬ IsDue old fresh dryRun) :
    writeBack t file fresh dryRun = (.ok (told file old fresh false), t) := by
  have unneeded : dryRun = true ∨ (target old fresh = .description ∧ old = fresh) := by
    cases dryRun with
    | true => exact .inl rfl
    | false => exact .inr (by simpa [IsDue] using idle)
  simp only [writeBack, read, if_pos unneeded, told]

theorem writeBack_of_fault {fault : Files.Fault} (read : t.readText file = .ok old)
    (due : IsDue old fresh dryRun)
    (write : t.writeText (destination file (target old fresh)) fresh = .error fault) :
    writeBack t file fresh dryRun =
      (.error (.serialize (destination file (target old fresh)) (.fault fault)), t) := by
  simp only [writeBack, read, if_neg due.needed, write]

theorem writeBack_of_write (read : t.readText file = .ok old) (due : IsDue old fresh dryRun)
    (write : t.writeText (destination file (target old fresh)) fresh = .ok t') :
    writeBack t file fresh dryRun = (.ok (told file old fresh true), t') := by
  simp only [writeBack, read, if_neg due.needed, write, told]

theorem target_eq_description :
    target old fresh = .description ↔
      Text.lineCount old.toList = Text.lineCount fresh.toList := by
  unfold target
  split <;> simp_all

theorem readText_of_due (read : t.readText file = .ok old)
    (write : t.writeText (destination file (target old fresh)) fresh = .ok t') :
    t'.readText file = .ok (if target old fresh = .description then fresh else old) := by
  cases aim : target old fresh with
  | description =>
    rw [aim] at write
    exact Tree.readText_of_writeText write
  | sibling =>
    rw [aim] at write
    exact Tree.readText_of_writeText_extend read (by decide) (by rfl) write

theorem writeBack_again (read : t.readText file = .ok old)
    (write : t.writeText (destination file (target old fresh)) fresh = .ok t') (dryRun₂ : Bool) :
    ∃ o₂, writeBack t' file fresh dryRun₂ = (.ok o₂, t') ∧ o₂.target = target old fresh ∧
      o₂.path = destination file (target old fresh) ∧
      (target old fresh = .description → o₂.written = false) := by
  have held := readText_of_due read write
  by_cases aim : target old fresh = .description
  · rw [if_pos aim] at held
    have same : target fresh fresh = .description := target_eq_description.2 rfl
    have idle : ¬ IsDue fresh fresh dryRun₂ := fun due => due.2 ⟨same, rfl⟩
    refine ⟨_, writeBack_of_not_due held idle, ?_, ?_, fun _ => rfl⟩
    · rw [aim]
      exact same
    · rw [aim, told, same]
  · rw [if_neg aim] at held
    by_cases due : IsDue old fresh dryRun₂
    · exact ⟨_, writeBack_of_write held due (Tree.writeText_again write), rfl, rfl,
        fun here => absurd here aim⟩
    · exact ⟨_, writeBack_of_not_due held due, rfl, rfl, fun _ => rfl⟩

inductive Fails (t : Tree) (file : Path) (fresh : String) (dryRun : Bool) : Failure → Prop
  | unread {fault : Files.Fault} (read : t.readText file = .error fault) :
    Fails t file fresh dryRun (.serialize file (.fault fault))
  | unwritten {old : String} {fault : Files.Fault} (read : t.readText file = .ok old)
    (due : IsDue old fresh dryRun)
    (write : t.writeText (destination file (target old fresh)) fresh = .error fault) :
    Fails t file fresh dryRun (.serialize (destination file (target old fresh)) (.fault fault))

structure Effect (t t' : Tree) (file : Path) (old fresh : String) (dryRun : Bool) (o : Outcome) :
    Prop where
  target : o.target = .description ↔ Text.lineCount old.toList = Text.lineCount fresh.toList
  path : o.path = if o.target = .description then file else ⟨file.text ++ ".new"⟩
  written : o.written = true ↔ dryRun = false ∧ ¬ (o.target = .description ∧ old = fresh)
  lines : o.oldLines = Text.lineCount old.toList ∧ o.freshLines = Text.lineCount fresh.toList
  unchanged : o.written = false → t' = t
  /-- The file at the path is the only one that changes. -/
  changed : o.written = true → ∃ at_, t'.locate o.path = .ok (.entry at_ (.file fresh.toUTF8)) ∧
    t'.home = t.home ∧ ∀ other ≠ at_, t'.get? other = t.get? other
  holds : dryRun = false → t'.readText o.path = .ok fresh
  /-- A second time nothing changes, unless the first time was a dry run and the second is not. -/
  again : ∀ dryRun₂, (dryRun = true → dryRun₂ = true) →
    ∃ o₂, writeBack t' file fresh dryRun₂ = (.ok o₂, t') ∧ o₂.target = o.target ∧ o₂.path = o.path ∧
      (o.target = .description → o₂.written = false)

theorem destination_eq (file : Path) (aim : Target) :
    destination file aim = if aim = .description then file else ⟨file.text ++ ".new"⟩ := by
  cases aim <;> rfl

theorem effect_of_not_due (read : t.readText file = .ok old) (idle : ¬ IsDue old fresh dryRun) :
    Effect t t file old fresh dryRun (told file old fresh false) where
  target := target_eq_description
  path := destination_eq file _
  written := iff_of_false Bool.false_ne_true idle
  lines := ⟨rfl, rfl⟩
  unchanged _ := rfl
  changed written := absurd written Bool.false_ne_true
  holds real := by
    have done : target old fresh = .description ∧ old = fresh := by simpa [IsDue, real] using idle
    obtain ⟨aim, rfl⟩ := done
    rwa [told, aim]
  again dryRun₂ dry := by
    have idle₂ : ¬ IsDue old fresh dryRun₂ := by
      intro due
      refine idle ⟨?_, due.2⟩
      cases dryRun with
      | true => exact absurd due.1 (by simp [dry rfl])
      | false => rfl
    exact ⟨_, writeBack_of_not_due read idle₂, rfl, rfl, fun _ => rfl⟩

theorem effect_of_write (read : t.readText file = .ok old) (due : IsDue old fresh dryRun)
    (write : t.writeText (destination file (target old fresh)) fresh = .ok t') :
    Effect t t' file old fresh dryRun (told file old fresh true) where
  target := target_eq_description
  path := destination_eq file _
  written := iff_of_true rfl due
  lines := ⟨rfl, rfl⟩
  unchanged unwritten := by cases unwritten
  changed _ := by
    obtain ⟨found, way⟩ := Tree.locate_of_writeText write
    obtain ⟨at_, aim, rfl⟩ := Tree.writeText_eq_ok.1 write
    obtain rfl : found = at_ := Tree.Leads.unique ⟨_, way⟩ (Tree.leads_of_fileTarget aim _)
    exact ⟨found, way, rfl, fun other elsewhere => Tree.get?_put_of_ne t elsewhere _⟩
  holds _ := Tree.readText_of_writeText write
  again dryRun₂ _ := writeBack_again read write dryRun₂

theorem writeBack_of_fails {failure : Failure} (h : Fails t file fresh dryRun failure) :
    writeBack t file fresh dryRun = (.error failure, t) := by
  cases h with
  | unread read => exact writeBack_of_error read
  | unwritten read due write => exact writeBack_of_fault read due write

theorem writeBack_cases (t : Tree) (file : Path) (fresh : String) (dryRun : Bool) :
    (∃ failure, Fails t file fresh dryRun failure) ∨
      ∃ old o t', t.readText file = .ok old ∧ Effect t t' file old fresh dryRun o ∧
        writeBack t file fresh dryRun = (.ok o, t') := by
  cases read : t.readText file with
  | error fault => exact .inl ⟨_, .unread read⟩
  | ok old =>
    by_cases due : IsDue old fresh dryRun
    · cases write : t.writeText (destination file (target old fresh)) fresh with
      | error fault => exact .inl ⟨_, .unwritten read due write⟩
      | ok t' =>
        exact .inr ⟨old, _, t', rfl, effect_of_write read due write,
          writeBack_of_write read due write⟩
    · exact .inr ⟨old, _, t, rfl, effect_of_not_due read due, writeBack_of_not_due read due⟩

/-- Writing back fails exactly when the description cannot be read or a text that is due cannot be
written, and then nothing changes; else its outcome tells what changed. -/
theorem writeBack_spec (t : Tree) (file : Path) (fresh : String) (dryRun : Bool) :
    (∀ failure t', writeBack t file fresh dryRun = (.error failure, t') ↔
      t' = t ∧ Fails t file fresh dryRun failure) ∧
    ∀ o t', writeBack t file fresh dryRun = (.ok o, t') →
      ∃ old, t.readText file = .ok old ∧ Effect t t' file old fresh dryRun o := by
  rcases writeBack_cases t file fresh dryRun with
    ⟨failure, fails⟩ | ⟨old, o, t₁, read, effect, done⟩
  · have failed := writeBack_of_fails fails
    refine ⟨fun other t' => ⟨fun same => ?_, ?_⟩, fun o t' done => ?_⟩
    · cases failed.symm.trans same
      exact ⟨rfl, fails⟩
    · rintro ⟨rfl, fails'⟩
      exact writeBack_of_fails fails'
    · cases failed.symm.trans done
  · refine ⟨fun failure t' => ⟨fun failed => ?_, ?_⟩, fun o' t' done' => ?_⟩
    · cases done.symm.trans failed
    · rintro ⟨rfl, fails⟩
      exact writeBack_of_fails fails
    · cases done.symm.trans done'
      exact ⟨old, read, effect⟩

theorem writeBack_spec_longer :
    ∃ t', writeBack (Files.Tree.put ⟨[], []⟩ ["a"] (.file "old\n".toUTF8))
          ⟨"a"⟩ "new\nend\n" false =
        (.ok ⟨.sibling, ⟨"a.new"⟩, true, 1, 2⟩, t') ∧
      t'.readText ⟨"a.new"⟩ = .ok "new\nend\n" ∧
      ∃ o₂, writeBack t' ⟨"a"⟩ "new\nend\n" false = (.ok o₂, t') ∧ o₂.target = .sibling ∧
        o₂.path = ⟨"a.new"⟩ := by
  obtain ⟨_, told⟩ := writeBack_spec (Files.Tree.put ⟨[], []⟩ ["a"] (.file "old\n".toUTF8)) ⟨"a"⟩
    "new\nend\n" false
  refine ⟨_, rfl, ?_⟩
  obtain ⟨old, _, effect⟩ := told ⟨.sibling, ⟨"a.new"⟩, true, 1, 2⟩ _ rfl
  obtain ⟨o₂, again, target, path, _⟩ := effect.again false nofun
  exact ⟨effect.holds rfl, o₂, again, target, path⟩

end Saving

end Toolwright
