import Toolwright.Proofs.Loading.Wiring

/-!
What loading adds to a description. Everything a description says is read without owners, and a
loaded tool is that with every part told its owner and with the place of its file. So without these
it is what was read, and its canonical text is that of the description alone.
-/

namespace Toolwright

open Json

theorem map_getD_eq_self {α : Type} {f : α → α} {xs? : Option (List α)}
    (h : ∀ xs, xs? = some xs → ∀ x ∈ xs, f x = x) : (xs?.getD []).map f = xs?.getD [] := by
  cases given : xs? with
  | none => rfl
  | some xs => exact map_eq_self.2 (h xs given)

theorem SettingsClass.gives_unwired (limit : Nat) :
    Gives (SettingsClass.read limit) fun c => c.unwired = c :=
  Form.gives_completed (fun _ _ complete => by cases complete; rfl) limit

theorem DataClass.gives_unwired (limit : Nat) :
    Gives (DataClass.read limit) fun d => d.unwired = d := by
  refine Form.gives_completed (fun r d complete => ?_) limit
  obtain ⟨name, _, complete⟩ := Option.bind_eq_some_iff.1 complete
  cases complete
  rfl

theorem Enumeration.gives_unwired (limit : Nat) :
    Gives (Enumeration.read limit) fun e => e.unwired = e := by
  refine Form.gives_completed (fun r e complete => ?_) limit
  obtain ⟨name, _, complete⟩ := Option.bind_eq_some_iff.1 complete
  cases complete
  rfl

def Task.Draft.Unwired (r : Draft) : Prop := ∀ c, r.settings = some c → c.unwired = c

theorem Task.gives_unwired (limit : Nat) : Gives (Task.read limit) fun t => t.unwired = t := by
  have blank : ∀ _ : Nat, Draft.Unwired form.blank := fun _ _ h => nomatch h
  refine Form.gives_record (P := fun _ t => t.unwired = t) blank ?_ ?_ limit
  · intro depth
    simp only [form, List.forall_mem_cons]
    refine ⟨fun r h => ?_, fun r h => ?_, fun r h => ?_, fun r h => ?_, List.forall_mem_nil _⟩
    · exact gives_memberOf .any fun _ _ => h
    · exact gives_memberOf .any fun _ _ => h
    · exact gives_memberOf .any fun _ _ => h
    · exact gives_memberOf (SettingsClass.gives_unwired depth) fun c hc d hd => by
        cases hd
        exact hc
  · intro depth r t h complete
    obtain ⟨settings, given, complete⟩ := Option.bind_eq_some_iff.1 complete
    cases complete
    simp only [unwired, h settings given]

structure Tool.Draft.Unwired (r : Draft) : Prop where
  tasks : ∀ xs, r.tasks = some xs → ∀ x ∈ xs, x.unwired = x
  dataClasses : ∀ xs, r.dataClasses = some xs → ∀ x ∈ xs, x.unwired = x
  enumerations : ∀ xs, r.enumerations = some xs → ∀ x ∈ xs, x.unwired = x

theorem Tool.gives_unwired (limit : Nat) : Gives (Tool.read limit) fun t => t.unwired = t := by
  have blank : ∀ _ : Nat, Draft.Unwired form.blank := fun _ =>
    ⟨fun _ h => (nomatch h), fun _ h => (nomatch h), fun _ h => (nomatch h)⟩
  refine Form.gives_record (P := fun _ t => t.unwired = t) blank ?_ ?_ limit
  · intro depth
    simp only [form, List.forall_mem_cons]
    refine ⟨fun r h => ?_, fun r h => ?_, fun r h => ?_, fun r h => ?_, fun r h => ?_,
      fun r h => ?_, fun r h => ?_, fun r h => ?_, fun r h => ?_, fun r h => ?_,
      List.forall_mem_nil _⟩
    · exact gives_memberOf .any fun _ _ => ⟨h.1, h.2, h.3⟩
    · exact gives_memberOf .any fun _ _ => ⟨h.1, h.2, h.3⟩
    · exact gives_memberOf .any fun _ _ => ⟨h.1, h.2, h.3⟩
    · exact gives_memberOf .any fun _ _ => ⟨h.1, h.2, h.3⟩
    · exact gives_memberOf .any fun _ _ => ⟨h.1, h.2, h.3⟩
    · exact gives_memberOf .any fun _ _ => ⟨h.1, h.2, h.3⟩
    · exact gives_memberOf .any fun _ _ => ⟨h.1, h.2, h.3⟩
    · refine gives_memberOf (Gives.list Task.gives_unwired depth) fun xs hxs =>
        ⟨fun ys hys => ?_, h.2, h.3⟩
      cases hys
      exact hxs.choose_spec.2
    · refine gives_memberOf (Gives.list DataClass.gives_unwired depth) fun xs hxs =>
        ⟨h.1, fun ys hys => ?_, h.3⟩
      cases hys
      exact hxs.choose_spec.2
    · refine gives_memberOf (Gives.list Enumeration.gives_unwired depth) fun xs hxs =>
        ⟨h.1, h.2, fun ys hys => ?_⟩
      cases hys
      exact hxs.choose_spec.2
  · intro depth r t h complete
    obtain ⟨name, _, complete⟩ := Option.bind_eq_some_iff.1 complete
    cases complete
    simp only [unwired, map_getD_eq_self h.tasks, map_getD_eq_self h.dataClasses,
      map_getD_eq_self h.enumerations]

theorem Tool.unwired_of_parse {text : String} {t : Tool} (h : Tool.parse text = .ok t) :
    t.unwired = t :=
  (gives_unwired Reader.nestingLimit).of_readAll h

namespace Tool

theorem unwired_placed_wired (t : Tool) (options : LoadOptions) (file : Path) :
    (t.placed options file).wired.unwired = t.unwired := by
  have tasks : ∀ name, (t.tasks.mapIdx (wiredTask name)).map Task.unwired =
      t.tasks.map Task.unwired :=
    fun name => map_mapIdx (f := wiredTask name) (fun _ _ => rfl) t.tasks
  simp only [placed, wired, unwired, tasks, List.map_map]
  rfl

/-- Every part of the tool knows its owner: the settings class of a task is also told the index
under which the tool finds that task. -/
structure IsWired (t : Tool) : Prop where
  tasks : ∀ (index : Nat) (task : Task), t.tasks[index]? = some task →
    task.tool = some t.name ∧ task.settings.tool = some t.name ∧
      task.settings.task = some index ∧ task.settings.task.bind t.task? = some task
  dataClasses : ∀ d ∈ t.dataClasses, d.tool = some t.name
  enumerations : ∀ e ∈ t.enumerations, e.tool = some t.name

theorem isWired_wired (t : Tool) : t.wired.IsWired where
  tasks index task there := by
    obtain ⟨source, _, rfl⟩ : ∃ source, t.tasks[index]? = some source ∧
        wiredTask t.name index source = task := by
      simpa [wired] using there
    exact ⟨rfl, rfl, rfl, there⟩
  dataClasses d hd := by
    obtain ⟨source, _, rfl⟩ := List.mem_map.1 hd
    rfl
  enumerations e he := by
    obtain ⟨source, _, rfl⟩ := List.mem_map.1 he
    rfl

end Tool

namespace Loading

/-- A loaded tool is wired, its settings classes are called after their tasks, and all else in it is
what its text was read to. Its canonical text depends on the text of its description alone. -/
theorem wired_of_load {options : LoadOptions} {t t₁ : Files.Tree} {file : Path} {tool : Tool}
    (loaded : load options t file = (.ok tool, t₁)) :
    tool.IsWired ∧
      (∀ task ∈ tool.tasks, task.settings.effectiveName tool = tool.settingsName task) ∧
      (∃ text parsed, t.readText file = .ok text ∧ Tool.parse text = .ok parsed ∧
        tool.unwired = parsed ∧ tool.canonicalText = parsed.canonicalText) ∧
      ∀ options₂ t₂ t₃ file₂ tool₂, load options₂ t₂ file₂ = (.ok tool₂, t₃) →
        t₂.readText file₂ = t.readText file → tool₂.canonicalText = tool.canonicalText := by
  have names : ∀ task ∈ tool.tasks, task.settings.effectiveName tool = tool.settingsName task :=
    fun task ht => effectiveName_of_load loaded ht
  obtain ⟨parsed, valid, _, rfl⟩ := load_eq_ok.1 loaded
  obtain ⟨text, read, parse, _⟩ := readValid_eq_ok.1 valid
  have written := Tool.canonicalText_placed_wired parsed
  refine ⟨Tool.isWired_wired _, names, ⟨text, parsed, read, parse, ?_, written options file⟩, ?_⟩
  · rw [Tool.unwired_placed_wired, Tool.unwired_of_parse parse]
  · intro options₂ t₂ t₃ file₂ tool₂ loaded₂ same
    obtain ⟨parsed₂, valid₂, _, rfl⟩ := load_eq_ok.1 loaded₂
    obtain ⟨text₂, read₂, parse₂, _⟩ := readValid_eq_ok.1 valid₂
    obtain rfl : text = text₂ := Except.ok.inj (read.symm.trans (same.symm.trans read₂))
    obtain rfl : parsed = parsed₂ := Except.ok.inj (parse.symm.trans parse₂)
    rw [written, written]

/-- A named and an unnamed settings class, a data class and an enumeration. -/
def packText : String :=
  "[\"pack\",null,null,null,null,null,[]," ++
    "[[\"Add\",null,null,[null,null,[]]],[null,null,null,[\"Chosen\",null,[]]]]," ++
    "[[\"Box\",null,[]]],[[\"Mode\",null,[\"fast\"]]]]"

def packTool : Tool where
  name := "pack"
  tasks := [{ postfixText := some "Add", settings := {} },
    { settings := { name := some "Chosen" } }]
  dataClasses := [{ name := "Box" }]
  enumerations := [{ name := "Mode", values := ["fast"] }]

set_option maxRecDepth 4000 in
theorem parse_packText : Tool.parse packText = .ok packTool := by rfl

def packTree : Files.Tree := soleTree packText

def otherOptions : LoadOptions := ⟨⟨"made"⟩, "https://example.test/other/", false⟩

def otherFile : Path := ⟨"./demo.json"⟩

theorem load_otherwise :
    load otherOptions packTree otherFile =
      (.ok (packTool.placed otherOptions otherFile).wired, packTree) := by
  have there : packTree.readText otherFile = .ok packText :=
    Files.Tree.readText_eq_ok.2 ⟨["demo.json"], by rfl⟩
  have valid : readValid packTree otherFile = .ok packTool :=
    readValid_eq_ok.2 ⟨packText, there, parse_packText, by rfl⟩
  exact load_eq_ok.2 ⟨packTool, valid, rfl, rfl⟩

theorem wired_of_load_pack :
    load soleOptions packTree soleFile = (.ok (soleTool packTool), packTree) ∧
      (soleTool packTool).IsWired ∧
      (∀ task ∈ (soleTool packTool).tasks,
        task.settings.effectiveName (soleTool packTool) = (soleTool packTool).settingsName task) ∧
      (∃ text parsed, packTree.readText soleFile = .ok text ∧ Tool.parse text = .ok parsed ∧
        (soleTool packTool).unwired = parsed ∧
        (soleTool packTool).canonicalText = parsed.canonicalText) ∧
      (packTool.placed otherOptions otherFile).wired.canonicalText =
        (soleTool packTool).canonicalText := by
  have loaded : load soleOptions packTree soleFile = (.ok (soleTool packTool), packTree) :=
    load_sole parse_packText (by rfl)
  obtain ⟨wired, names, read, everywhere⟩ := wired_of_load loaded
  exact ⟨loaded, wired, names, read, everywhere _ _ _ _ _ load_otherwise (by rfl)⟩

end Loading

end Toolwright
