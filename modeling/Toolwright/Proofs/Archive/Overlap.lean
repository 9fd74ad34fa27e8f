import Mathlib.Algebra.Ring.Nat
import Toolwright.Archive.Overlap
import Toolwright.Proofs.Archive.Isolation

/-!
What comes out for references that are on their way at once. Whatever happens in between, a
reference that is under way has come as far as it would have come alone, and the files are what
they were but for the archives of the references that are settled. Each event brings some reference
closer to its outcome, so every course ends, and they all end where handling one reference after
the other ends.
-/

namespace Toolwright

open Files (Tree Location)

namespace Synchronizer

variable {s : Synchronizer} {tool : Tool} {t : Tree} {c c' : Course} {e : Event}

def Job.IsSettled (j : Job) : Prop := ∃ status, j.stage = .settled status

theorem step_begin (h : s.step tool c .begin = some c') :
    ∃ r rest, c.waiting = r :: rest ∧ c' = { c with
      underWay := c.underWay ++ [⟨c.outcomes.length + c.underWay.length, r, .asked⟩]
      waiting := rest } := by
  simp only [step] at h
  split at h
  · cases h
  · next r rest waiting =>
    split at h
    · cases h
      exact ⟨r, rest, waiting, rfl⟩
    · cases h

theorem step_answer {place : Nat} (h : s.step tool c (.answer place) = some c') :
    ∃ j, c.underWay[place]? = some j ∧ j.stage = .asked ∧
      c' = { c with underWay := c.underWay.set place (s.answered tool c.tree j) } := by
  simp only [step] at h
  split at h
  · next i r held =>
    cases h
    exact ⟨⟨i, r, .asked⟩, held, rfl, rfl⟩
  · cases h

theorem step_write {place : Nat} (h : s.step tool c (.write place) = some c') :
    ∃ j text, c.underWay[place]? = some j ∧ j.stage = .unwritten text ∧ c' = { c with
      tree := (written tool c.tree j text).2
      underWay := c.underWay.set place (written tool c.tree j text).1 } := by
  simp only [step] at h
  split at h
  · next i r text held =>
    cases h
    exact ⟨⟨i, r, .unwritten text⟩, text, held, rfl, rfl⟩
  · cases h

theorem step_leave (h : s.step tool c .leave = some c') :
    ∃ j rest status, c.underWay = j :: rest ∧ j.stage = .settled status ∧ c' = { c with
      outcomes := c.outcomes ++ [⟨j.index, j.reference, tool.referencePath j.index, status⟩]
      underWay := rest } := by
  simp only [step] at h
  split at h
  · next i r status rest underWay =>
    cases h
    exact ⟨⟨i, r, .settled status⟩, rest, status, underWay, rfl, rfl⟩
  · cases h

theorem answered_ok {u : Tree} {j : Job} {text : String} (h : s.textFor u j.reference = .ok text) :
    s.answered tool u j = { j with stage := .unwritten text } := by
  simp only [answered, h]

theorem answered_error {u : Tree} {j : Job} {f : Failure} (h : s.textFor u j.reference = .error f) :
    s.answered tool u j = j.fail tool f := by
  simp only [answered, h]

theorem written_ok {u : Tree} {j : Job} {text : String} {at_ : Location}
    (h : u.fileTarget (tool.referencePath j.index) = .ok at_) :
    written tool u j text =
      (j.settle (.archived text.utf8ByteSize), u.put at_ (.file text.toUTF8)) := by
  unfold written
  rw [Files.Tree.writeText_eq_ok.2 ⟨at_, h, rfl⟩]

theorem written_error {u : Tree} {j : Job} {text : String} {fault : Files.Fault}
    (h : u.fileTarget (tool.referencePath j.index) = .error fault) :
    written tool u j text = (j.fail tool (.io (.fault fault)), u) := by
  unfold written
  rw [Files.Tree.writeText_eq_error.2 h]

/-- A reference that has come as far as it would have come alone, from the files `t`. -/
structure Job.Sound (s : Synchronizer) (tool : Tool) (t : Tree) (place : Nat) (j : Job) : Prop where
  index : j.index = place
  held : tool.references[place]? = some j.reference
  text : ∀ text, j.stage = .unwritten text → s.textFor t j.reference = .ok text
  outcome : ∀ status, j.stage = .settled status → (s.archiveOne tool t place j.reference).1 =
    ⟨place, j.reference, tool.referencePath place, status⟩

def Course.Settled (c : Course) (i : Nat) : Prop :=
  i < c.outcomes.length ∨ ∃ k j, i = c.outcomes.length + k ∧ c.underWay[k]? = some j ∧ j.IsSettled

structure Course.Sound (s : Synchronizer) (tool : Tool) (t : Tree) (c : Course) : Prop where
  outcome : ∀ i o, c.outcomes[i]? = some o →
    ∃ r, tool.references[i]? = some r ∧ o = (s.archiveOne tool t i r).1
  job : ∀ k (j : Job), c.underWay[k]? = some j → j.Sound s tool t (c.outcomes.length + k)
  waiting : tool.references.drop (c.outcomes.length + c.underWay.length) = c.waiting
  all : c.outcomes.length + c.underWay.length + c.waiting.length = tool.references.length
  files : After s tool c.Settled t c.tree

theorem Course.Sound.new (s : Synchronizer) (tool : Tool) (t : Tree) :
    (Course.new tool t).Sound s tool t where
  outcome := by simp [Course.new]
  job := by simp [Course.new]
  waiting := rfl
  all := by simp [Course.new]
  files := (After.start s tool t).congr fun i => by simp [Course.Settled, Course.new]

theorem Course.Sound.set {place : Nat} {j j' : Job} {tree : Tree} (h : c.Sound s tool t)
    (held : c.underWay[place]? = some j) (before : ¬ j.IsSettled)
    (sound : j'.Sound s tool t (c.outcomes.length + place))
    (files : After s tool
      (fun i => (i = c.outcomes.length + place ∧ j'.IsSettled) ∨ c.Settled i) t tree) :
    Course.Sound s tool t { c with tree := tree, underWay := c.underWay.set place j' } := by
  have bound : place < c.underWay.length := (List.getElem?_eq_some_iff.1 held).1
  refine ⟨h.outcome, fun k i there => ?_, ?_, ?_, files.congr fun i => ?_⟩
  · by_cases same : place = k
    · subst same
      rw [List.getElem?_set_self bound] at there
      cases there
      exact sound
    · rw [List.getElem?_set_ne same] at there
      exact h.job k i there
  · simpa using h.waiting
  · simpa using h.all
  · constructor
    · rintro (⟨rfl, settled⟩ | early | ⟨k, i', rfl, there, settled⟩)
      · exact .inr ⟨place, j', rfl, List.getElem?_set_self bound, settled⟩
      · exact .inl early
      · have other : place ≠ k := by
          rintro rfl
          cases held.symm.trans there
          exact before settled
        exact .inr ⟨k, i', rfl, (List.getElem?_set_ne other).trans there, settled⟩
    · rintro (early | ⟨k, i', rfl, there, settled⟩)
      · exact .inr (.inl early)
      · by_cases same : place = k
        · subst same
          cases (List.getElem?_set_self bound).symm.trans there
          exact .inl ⟨rfl, settled⟩
        · exact .inr (.inr ⟨k, i', rfl, (List.getElem?_set_ne same).symm.trans there, settled⟩)

theorem Course.Sound.settle {place : Nat} {j : Job} {status : ReferenceStatus} {tree : Tree}
    (h : c.Sound s tool t) (held : c.underWay[place]? = some j) (before : ¬ j.IsSettled)
    (outcome : (s.archiveOne tool t j.index j.reference).1 =
      ⟨j.index, j.reference, tool.referencePath j.index, status⟩)
    (files : After s tool (fun i => i = j.index ∨ c.Settled i) t tree) :
    Course.Sound s tool t
      { c with tree := tree, underWay := c.underWay.set place (j.settle status) } := by
  have sound := h.job place j held
  rw [sound.index] at outcome files
  refine h.set held before ⟨sound.index, sound.held, nofun, ?_⟩ ?_
  · rintro _ ⟨⟩
    exact outcome
  · refine files.congr fun i => or_congr ⟨fun same => ⟨same, status, rfl⟩, And.left⟩ Iff.rfl

theorem Course.Sound.begin (h : c.Sound s tool t) (next : s.step tool c .begin = some c') :
    c'.Sound s tool t := by
  obtain ⟨r, rest, waiting, rfl⟩ := step_begin next
  have length := h.all
  have drop := h.waiting
  rw [waiting] at length drop
  have held : tool.references[c.outcomes.length + c.underWay.length]? = some r := by
    have first := congrArg (·[0]?) drop
    simpa using first
  refine ⟨h.outcome, fun k j there => ?_, ?_, ?_, h.files.congr fun i => ?_⟩
  · by_cases last : k = c.underWay.length
    · subst last
      obtain rfl : _ = j := by simpa using there
      exact ⟨rfl, held, nofun, nofun⟩
    · have bound := (List.getElem?_eq_some_iff.1 there).1
      rw [List.length_append, List.length_singleton] at bound
      rw [List.getElem?_append_left (by omega)] at there
      exact h.job k j there
  · rw [List.length_append, List.length_singleton, ← Nat.add_assoc, ← List.tail_drop, drop,
      List.tail_cons]
  · simp only [List.length_append, List.length_cons, List.length_nil] at length ⊢
    omega
  · -- what has just begun is not settled
    constructor
    · rintro (early | ⟨k, j, rfl, there, settled⟩)
      · exact .inl early
      · have bound := (List.getElem?_eq_some_iff.1 there).1
        exact .inr ⟨k, j, rfl, (List.getElem?_append_left bound).trans there, settled⟩
    · rintro (early | ⟨k, j, rfl, there, settled⟩)
      · exact .inl early
      · have bound := (List.getElem?_eq_some_iff.1 there).1
        rw [List.length_append, List.length_singleton] at bound
        by_cases last : k = c.underWay.length
        · subst last
          obtain rfl : _ = j := by simpa using there
          obtain ⟨_, stage⟩ := settled
          cases stage
        · rw [List.getElem?_append_left (by omega)] at there
          exact .inr ⟨k, j, rfl, there, settled⟩

theorem Course.Sound.answer {place : Nat} (steady : s.fetcher.IsSteady) (h : c.Sound s tool t)
    (next : s.step tool c (.answer place) = some c') : c'.Sound s tool t := by
  obtain ⟨j, held, asked, rfl⟩ := step_answer next
  have before : ¬ j.IsSettled := by
    rintro ⟨_, stage⟩
    cases asked.symm.trans stage
  have sound := h.job place j held
  cases hasText : s.textFor t j.reference with
  | ok text =>
    rw [answered_ok ((textFor_steady steady _ _ _).trans hasText)]
    refine h.set held before ⟨sound.index, sound.held, ?_, nofun⟩ ?_
    · rintro _ ⟨⟩
      exact hasText
    · refine h.files.congr fun i => ⟨.inr, ?_⟩
      rintro (⟨_, _, stage⟩ | settled)
      · cases stage
      · exact settled
  | error f =>
    rw [answered_error ((textFor_steady steady _ _ _).trans hasText)]
    refine h.settle held before ?_ (h.files.skip ?_)
    · simp only [archiveOne_eq, hasText]
    · rintro text at_ ⟨r, there, hasText', _⟩
      rw [sound.index] at there
      cases sound.held.symm.trans there
      cases hasText.symm.trans hasText'

theorem Course.Sound.write {place : Nat} (h : c.Sound s tool t)
    (next : s.step tool c (.write place) = some c') : c'.Sound s tool t := by
  obtain ⟨j, text, held, unwritten, rfl⟩ := step_write next
  have before : ¬ j.IsSettled := by
    rintro ⟨_, stage⟩
    cases unwritten.symm.trans stage
  have sound := h.job place j held
  have hasText := sound.text text unwritten
  cases target : t.fileTarget (tool.referencePath j.index) with
  | ok at_ =>
    rw [written_ok ((h.files.targets j.index).trans target)]
    refine h.settle held before ?_ (h.files.write ⟨j.reference, ?_, hasText, target⟩)
    · simp only [archiveOne_eq, hasText, target]
    · rw [sound.index]
      exact sound.held
  | error fault =>
    rw [written_error ((h.files.targets j.index).trans target)]
    refine h.settle held before ?_ (h.files.skip ?_)
    · simp only [archiveOne_eq, hasText, target]
    · intro text at_ archives
      cases target.symm.trans archives.target

theorem Course.Sound.leave (h : c.Sound s tool t) (next : s.step tool c .leave = some c') :
    c'.Sound s tool t := by
  obtain ⟨j, rest, status, underWay, settled, rfl⟩ := step_leave next
  have first : c.underWay[0]? = some j := by rw [underWay]; rfl
  have sound := h.job 0 j first
  have behind : ∀ k, c.underWay[k + 1]? = rest[k]? := fun k => by rw [underWay]; rfl
  have length := h.all
  have drop := h.waiting
  rw [underWay, List.length_cons] at length drop
  have shift : ∀ k, c.outcomes.length + 1 + k = c.outcomes.length + (k + 1) := fun k => by omega
  -- the first reference under way becomes the last outcome, and the others move up by one
  refine ⟨fun i o there => ?_, fun k j' there => ?_, ?_, ?_, h.files.congr fun i => ?_⟩
  · by_cases last : i = c.outcomes.length
    · subst last
      obtain rfl : _ = o := by simpa using there
      refine ⟨j.reference, sound.held, ?_⟩
      rw [sound.index]
      exact (sound.outcome status settled).symm
    · have bound := (List.getElem?_eq_some_iff.1 there).1
      rw [List.length_append, List.length_singleton] at bound
      rw [List.getElem?_append_left (by omega)] at there
      exact h.outcome i o there
  · rw [List.length_append, List.length_singleton, shift]
    exact h.job (k + 1) j' ((behind k).trans there)
  · rw [List.length_append, List.length_singleton, shift]
    exact drop
  · simp only [List.length_append, List.length_singleton]
    omega
  · simp only [Course.Settled, List.length_append, List.length_singleton, shift]
    constructor
    · rintro (early | ⟨k, j', rfl, there, settled'⟩)
      · exact .inl (by omega)
      · cases k with
        | zero => exact .inl (by omega)
        | succ k => exact .inr ⟨k, j', rfl, (behind k).symm.trans there, settled'⟩
    · rintro (early | ⟨k, j', rfl, there, settled'⟩)
      · by_cases last : i = c.outcomes.length
        · exact .inr ⟨0, j, last, first, status, settled⟩
        · exact .inl (by omega)
      · exact .inr ⟨k + 1, j', rfl, (behind k).trans there, settled'⟩

theorem Course.Sound.step (steady : s.fetcher.IsSteady) (h : c.Sound s tool t)
    (next : s.step tool c e = some c') : c'.Sound s tool t := by
  cases e with
  | begin => exact h.begin next
  | answer place => exact h.answer steady next
  | write place => exact h.write next
  | leave => exact h.leave next

theorem Course.Sound.follow (steady : s.fetcher.IsSteady) {events : List Event}
    (h : c.Sound s tool t) (run : s.follow tool c events = some c') : c'.Sound s tool t := by
  induction events generalizing c with
  | nil =>
    cases run
    exact h
  | cons e rest ih =>
    obtain ⟨next, one, others⟩ := Option.bind_eq_some_iff.1 run
    exact ih (h.step steady one) others

theorem Course.Sound.of_isDone (steady : s.fetcher.IsSteady) (h : c.Sound s tool t)
    (done : c.isDone) :
    c.outcomes = (s.synchronize tool t).1 ∧
      ∀ at_, c.tree.get? at_ = (s.synchronize tool t).2.get? at_ := by
  obtain ⟨underWay, waiting⟩ : c.underWay = [] ∧ c.waiting = [] := by
    simpa [Course.isDone] using done
  obtain ⟨outcomes, after⟩ := synchronize_after steady tool t
  have length := h.all
  rw [underWay, waiting, List.length_nil, List.length_nil] at length
  constructor
  · refine List.ext_getElem? fun i => ?_
    rw [outcomes, List.getElem?_mapIdx]
    cases there : c.outcomes[i]? with
    | none =>
      have beyond : tool.references[i]? = none := by
        have bound := List.getElem?_eq_none_iff.1 there
        exact List.getElem?_eq_none_iff.2 (by omega)
      rw [beyond, Option.map_none]
    | some o =>
      obtain ⟨r, held, rfl⟩ := h.outcome i o there
      rw [held, Option.map_some]
  · refine (h.files.congr fun i => ?_).get?_eq after
    simp only [Course.Settled, underWay, List.getElem?_nil]
    constructor
    · rintro (early | ⟨_, _, _, there, _⟩)
      · omega
      · cases there
    · exact fun early => .inl (by omega)

/-- How many events a reference is still away from its outcome, at most. -/
def Stage.left : Stage → Nat
  | .asked => 3
  | .unwritten _ => 2
  | .settled _ => 1

def Course.left (c : Course) : Nat :=
  (c.underWay.map (·.stage.left)).sum + 4 * c.waiting.length

theorem sum_map_set {α : Type} (f : α → Nat) {l : List α} {place : Nat} {a : α}
    (held : l[place]? = some a) (b : α) :
    ((l.set place b).map f).sum + f a = (l.map f).sum + f b := by
  induction l generalizing place with
  | nil => cases held
  | cons x rest ih =>
    cases place with
    | zero =>
      cases held
      simp only [List.set_cons_zero, List.map_cons, List.sum_cons]
      omega
    | succ place =>
      have behind : rest[place]? = some a := held
      have rest := ih behind
      simp only [List.set_cons_succ, List.map_cons, List.sum_cons]
      omega

theorem left_answered (s : Synchronizer) (tool : Tool) (u : Tree) (j : Job) :
    (s.answered tool u j).stage.left < Stage.left .asked := by
  cases hasText : s.textFor u j.reference with
  | ok text =>
    rw [answered_ok hasText]
    exact Nat.lt_succ_self 2
  | error f =>
    rw [answered_error hasText]
    exact Nat.lt_succ_of_lt (Nat.lt_succ_self 1)

theorem left_written (u : Tree) (j : Job) (text : String) :
    (written tool u j text).1.stage.left = 1 := by
  cases target : u.fileTarget (tool.referencePath j.index) with
  | ok at_ => rw [written_ok target]; rfl
  | error fault => rw [written_error target]; rfl

theorem left_step (next : s.step tool c e = some c') : c'.left < c.left := by
  cases e with
  | begin =>
    obtain ⟨r, rest, waiting, rfl⟩ := step_begin next
    simp only [Course.left, Stage.left, waiting, List.map_append, List.map_cons, List.map_nil,
      List.sum_append, List.sum_cons, List.sum_nil, List.length_cons]
    omega
  | answer place =>
    obtain ⟨j, held, asked, rfl⟩ := step_answer next
    have total := sum_map_set (·.stage.left) held (s.answered tool c.tree j)
    have less := left_answered s tool c.tree j
    simp only [asked] at total
    simp only [Course.left]
    omega
  | write place =>
    obtain ⟨j, text, held, unwritten, rfl⟩ := step_write next
    have total := sum_map_set (·.stage.left) held (written tool c.tree j text).1
    have before : Stage.left (.unwritten text) = 2 := rfl
    simp only [unwritten, left_written, before] at total
    simp only [Course.left]
    omega
  | leave =>
    obtain ⟨j, rest, status, underWay, settled, rfl⟩ := step_leave next
    simp only [Course.left, underWay, List.map_cons, List.sum_cons, settled, Stage.left]
    omega

theorem left_follow {events : List Event} (run : s.follow tool c events = some c') :
    c'.left + events.length ≤ c.left := by
  induction events generalizing c with
  | nil =>
    cases run
    exact Nat.le_refl _
  | cons e rest ih =>
    obtain ⟨next, one, others⟩ := Option.bind_eq_some_iff.1 run
    have first := left_step one
    have behind := ih others
    rw [List.length_cons]
    omega

/-- As long as not all outcomes have left, something can happen. -/
theorem exists_step (room : 0 < s.maxConcurrent) (more : c.isDone = false) :
    ∃ e c', s.step tool c e = some c' := by
  obtain ⟨tree, outcomes, underWay, waiting⟩ := c
  cases underWay with
  | nil =>
    cases waiting with
    | nil => cases more
    | cons r rest => exact ⟨.begin, _, if_pos room⟩
  | cons j jobs =>
    obtain ⟨i, r, stage⟩ := j
    cases stage with
    | asked => exact ⟨.answer 0, _, rfl⟩
    | unwritten text => exact ⟨.write 0, _, rfl⟩
    | settled status => exact ⟨.leave, _, rfl⟩

theorem exists_follow_isDone (room : 0 < s.maxConcurrent) (c : Course) :
    ∃ events c', s.follow tool c events = some c' ∧ c'.isDone := by
  induction left : c.left using Nat.strongRecOn generalizing c with
  | ind n ih =>
    cases done : c.isDone with
    | true => exact ⟨[], c, rfl, done⟩
    | false =>
      obtain ⟨e, next, one⟩ := exists_step room done
      obtain ⟨events, last, run, done⟩ := ih next.left (left ▸ left_step one) next rfl
      exact ⟨e :: events, last, by rw [Synchronizer.follow, one, Option.bind_some, run], done⟩

theorem archiveFrom_withMaxConcurrent (n i : Nat) (refs : List Reference) (t : Tree) :
    (s.withMaxConcurrent n).archiveFrom tool t i refs = s.archiveFrom tool t i refs := by
  induction refs generalizing i t with
  | nil => rfl
  | cons r rest ih =>
    have first : (s.withMaxConcurrent n).archiveOne tool t i r = s.archiveOne tool t i r := rfl
    simp only [archiveFrom_cons, first, ih]

theorem synchronize_withMaxConcurrent (s : Synchronizer) (n : Nat) (tool : Tool) (t : Tree) :
    (s.withMaxConcurrent n).synchronize tool t = s.synchronize tool t :=
  archiveFrom_withMaxConcurrent n 0 tool.references t

/-- However many references are on their way at once, and in whatever order their documents come
and their texts are written: no course has more than four events for each reference, none gets
stuck, and at its end outcomes and files are those of handling one reference after the other. -/
theorem follow_eq_synchronize (steady : s.fetcher.IsSteady) (tool : Tool) (t : Tree) (n : Nat)
    (events : List Event) (c : Course)
    (run : (s.withMaxConcurrent n).follow tool (.new tool t) events = some c) :
    events.length ≤ 4 * tool.references.length ∧
    (∃ more last, (s.withMaxConcurrent n).follow tool c more = some last ∧ last.isDone) ∧
    (c.isDone →
      c.outcomes = (s.synchronize tool t).1 ∧
      (∀ at_, c.tree.get? at_ = (s.synchronize tool t).2.get? at_) ∧
      c.outcomes.length = tool.references.length ∧
      ∀ (i : Nat) r, tool.references[i]? = some r → ∃ status,
        c.outcomes[i]? = some ⟨i, r, tool.referencePath i, status⟩) := by
  have room : 0 < (s.withMaxConcurrent n).maxConcurrent := by
    have bound : 1 ≤ max n 1 := Nat.le_max_right n 1
    exact bound
  have steady' : (s.withMaxConcurrent n).fetcher.IsSteady := steady
  refine ⟨?_, exists_follow_isDone room c, fun done => ?_⟩
  · have left := left_follow run
    simp only [Course.left, Course.new, List.map_nil, List.sum_nil] at left
    omega
  · have sound := (Course.Sound.new (s.withMaxConcurrent n) tool t).follow steady' run
    obtain ⟨outcomes, files⟩ := sound.of_isDone steady' done
    rw [synchronize_withMaxConcurrent] at outcomes files
    refine ⟨outcomes, files, ?_, fun i r held => ?_⟩
    · rw [outcomes, (synchronize_after steady tool t).1, List.length_mapIdx]
    · obtain ⟨status, outcome, _⟩ := s.archiveOne_cases tool t i r
      refine ⟨status, ?_⟩
      rw [outcomes, getElem?_synchronize steady, held, Option.map_some, outcome]

def secondFirst : List Event :=
  [.begin, .begin, .answer 1, .answer 0, .write 0, .leave, .leave]

theorem follow_eq_synchronize_secondFirst :
    oneDocument.fetcher.IsSteady ∧
      ∃ c, (oneDocument.withMaxConcurrent 2).follow twoReferences
          (.new twoReferences (.empty ["home"])) secondFirst = some c ∧
        c.isDone = true ∧
        c.outcomes = (oneDocument.synchronize twoReferences (.empty ["home"])).1 := by
  have steady : oneDocument.fetcher.IsSteady := Fetcher.isSteady_ofDocuments _
  have run : ∃ c, (oneDocument.withMaxConcurrent 2).follow twoReferences
      (.new twoReferences (.empty ["home"])) secondFirst = some c ∧ c.isDone = true := by
    have references : twoReferences.references = [⟨"http://e/a"⟩, ⟨"http://e/b#//p"⟩] := rfl
    have room : (oneDocument.withMaxConcurrent 2).maxConcurrent = 2 := rfl
    have first : (oneDocument.withMaxConcurrent 2).textFor (.empty ["home"]) ⟨"http://e/a"⟩ =
        .ok "text" := textFor_oneDocument
    have second : (oneDocument.withMaxConcurrent 2).textFor (.empty ["home"]) ⟨"http://e/b#//p"⟩ =
        .error (.io (.unreachable "http://e/b")) := by rfl
    have target : (Tree.empty ["home"]).fileTarget (twoReferences.referencePath 0) =
        .ok ["home", "Foo.ref.000.txt"] := by rfl
    have archived (r : Reference) : written twoReferences (.empty ["home"])
        ⟨0, r, .unwritten "text"⟩ "text" = _ := written_ok target
    -- nothing but these facts about the data is looked at from here on
    generalize oneDocument.withMaxConcurrent 2 = s' at *
    generalize Tree.empty ["home"] = t at *
    generalize twoReferences = tool at *
    simp [secondFirst, follow, step, Course.new, Course.isDone, answered, Job.fail, Job.settle,
      references, room, first, second, archived]
  obtain ⟨c, run, done⟩ := run
  obtain ⟨_, _, result⟩ :=
    follow_eq_synchronize steady twoReferences (.empty ["home"]) 2 secondFirst c run
  exact ⟨steady, c, run, done, (result done).1⟩

end Synchronizer

end Toolwright
