import Toolwright.Proofs.Description.Normal
import Toolwright.Proofs.Json.Numbers

/-!
Descriptions whose numbers are replaced. All numbers of a description stand in the defaults of its
properties.
-/

namespace Toolwright

open Json

def Property.mapNumbers (ρ : Number → Number) (p : Property) : Property :=
  { p with default := p.default.mapNumbers ρ }

def SettingsClass.mapNumbers (ρ : Number → Number) (c : SettingsClass) : SettingsClass :=
  { c with properties := c.properties.map (Property.mapNumbers ρ) }

def Task.mapNumbers (ρ : Number → Number) (t : Task) : Task :=
  { t with settings := t.settings.mapNumbers ρ }

def DataClass.mapNumbers (ρ : Number → Number) (d : DataClass) : DataClass :=
  { d with properties := d.properties.map (Property.mapNumbers ρ) }

/-- The tool with `ρ n` in place of every number `n` of its defaults. -/
def Tool.mapNumbers (ρ : Number → Number) (t : Tool) : Tool :=
  { t with
    tasks := t.tasks.map (Task.mapNumbers ρ)
    dataClasses := t.dataClasses.map (DataClass.mapNumbers ρ) }

theorem Property.mapNumbers_id (p : Property) : p.mapNumbers id = p := by
  simp only [mapNumbers, FreeValue.mapNumbers_id]

theorem SettingsClass.mapNumbers_id (c : SettingsClass) : c.mapNumbers id = c := by
  simp only [mapNumbers, map_eq_self.2 fun p _ => Property.mapNumbers_id p]

theorem Task.mapNumbers_id (t : Task) : t.mapNumbers id = t := by
  simp only [mapNumbers, SettingsClass.mapNumbers_id]

theorem DataClass.mapNumbers_id (d : DataClass) : d.mapNumbers id = d := by
  simp only [mapNumbers, map_eq_self.2 fun p _ => Property.mapNumbers_id p]

theorem Tool.mapNumbers_id (t : Tool) : t.mapNumbers id = t := by
  simp only [mapNumbers, map_eq_self.2 fun task _ => Task.mapNumbers_id task,
    map_eq_self.2 fun d _ => DataClass.mapNumbers_id d]

end Toolwright
