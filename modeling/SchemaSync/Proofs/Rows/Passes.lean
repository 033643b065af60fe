import SchemaSync.Proofs.Rows.IndexListing
import SchemaSync.Proofs.Rows.Reassembly

/-!
# The three passes of an assembly

An assembly goes over the rows of columns, of foreign keys and of indexes in turn, and goes through exactly if
the three passes over a sketch do (`Rows.tracks_assemble`). What they come to can be told from the rows: the
first pass makes bare tables, a foreign key is made or left out on account of these tables alone, and the
last pass leaves foreign keys as they are (`Rows.Passes.accounts`).
-/

namespace SchemaSync.Rows

open Catalog

variable {a : Answers} {k l : Sketch} {os : List KeyOutcome}

def Passes (a : Answers) (k l : Sketch) : Prop :=
  ∃ k₁ k₂, Moves ColumnRow.Step a.columns k k₁ ∧ Moves KeyStep (keyGroups a.foreignKeys) k₁ k₂ ∧
    Moves IndexListing.Step (listings a.indexes) k₂ l

/-- The assembly goes through where the passes do. -/
theorem tracks_assemble (start : Option String) (a : Answers) :
    Tracks (fun d k => d = ⟨.empty, []⟩ ∧ k = ⟨.empty, []⟩) (assemble start a) (Passes (a.keep start))
      fun s => Sketched (Catalog.Draws · s) := by
  have hfirst : Tracks (fun d k => d = (⟨.empty, []⟩ : Draft) ∧ k = (⟨.empty, []⟩ : Sketch))
      (edit Edit.createSnapshot) (fun k l => l = k) fun s => Sketched (Catalog.Draws · s) := by
    refine ⟨?_, ?_⟩
    · rintro _ _ ⟨rfl, rfl⟩ v y ⟨⟩
      exact ⟨_, rfl, Catalog.draws_addSnapshot, rfl⟩
    · rintro _ _ l ⟨rfl, rfl⟩ rfl
      exact ⟨_, _, rfl, Catalog.draws_addSnapshot, rfl⟩
  have hcolumns (s : SnapshotId) : Tracks (Sketched (Catalog.Draws · s)) (addColumns s (a.keep start).columns)
      (Moves ColumnRow.Step (a.keep start).columns) fun _ => Sketched (Catalog.Draws · s) :=
    Tracks.forM fun r _ => r.tracks_addColumn
  have hlast (s : SnapshotId) : Tracks (Sketched (Catalog.Draws · s)) (pure s : Assembly SnapshotId)
      (fun k l => l = k) fun s => Sketched (Catalog.Draws · s) := by
    refine ⟨?_, ?_⟩
    · rintro d k hd v y ⟨⟩
      exact ⟨k, rfl, hd⟩
    · rintro d k l hd rfl
      exact ⟨s, d, rfl, hd⟩
  have hrun := hfirst.bind fun s => (hcolumns s).bind fun _ =>
    (tracks_addForeignKeys (a.keep start).foreignKeys).bind fun _ =>
      (tracks_addIndexes (a.keep start).indexes).bind fun _ => hlast s
  refine hrun.congr (fun _ k l _ => ?_) fun _ _ _ => id
  constructor
  · rintro ⟨_, rfl, k₁, h₁, k₂, h₂, l', h₃, rfl⟩
    exact ⟨k₁, k₂, h₁, h₂, h₃⟩
  · rintro ⟨k₁, k₂, h₁, h₂, h₃⟩
    exact ⟨k, rfl, k₁, h₁, k₂, h₂, l, h₃, rfl⟩

/-! ## What the passes come to -/

/-- What the rows of each foreign key come to on the tables that the rows of columns make. -/
def Accounts (a : Answers) (os : List KeyOutcome) : Prop :=
  List.Forall₂ (fun g o => o.name = g.1 ∧ KeyResult (columnShapes a.columns) o.table o.number g.2 o.result)
    (keyGroups a.foreignKeys) os

/-- There is one result for each foreign key that rows name. -/
theorem Accounts.names (h : Accounts a os) :
    os.map KeyOutcome.name = groupKeys (fun r => (r.table, r.key)) a.foreignKeys :=
  (map_name_eq h).trans (map_fst_orderedGroups a.foreignKeys)

/-- A step of the last pass adds its warning, if it has one, and leaves foreign keys alone. -/
theorem IndexListing.Step.warnings {g : IndexListing} (h : g.Step k l) :
    l.warnings = k.warnings ++ g.warning?.toList := by
  obtain ⟨-, n, -, rfl⟩ := h
  rfl

theorem warnings_moves_listings {gs : List IndexListing} (h : Moves IndexListing.Step gs k l) :
    l.warnings = k.warnings ++ gs.filterMap IndexListing.warning? := by
  rw [h.foldl_eq Sketch.warnings (fun ws g => ws ++ g.warning?.toList) fun _ _ _ _ hstep => hstep.warnings,
    List.foldl_append_eq_append, List.filterMap_eq_flatMap_toList, List.flatMap_def]

theorem foreignKeys_stroke {st : Stroke} {name : String} {m n : OrderedMap String TableShape} (h : st.Step name m n)
    (table : String) : (n.get? table).map TableShape.foreignKeys = (m.get? table).map TableShape.foreignKeys := by
  obtain ⟨sh, hname, -, rfl⟩ := h
  rw [OrderedMap.get?_insert]
  split
  next heq =>
    subst heq
    rw [hname, Option.map_some, Option.map_some, Stroke.foreignKeys_draw]
  next => rfl

/-- What the passes come to: every table has the foreign keys that were made of its rows, and the warnings are those of
the three passes in turn. -/
theorem Passes.accounts (h : Passes a ⟨.empty, []⟩ l) : ∃ os, Accounts a os ∧
    (∀ table sh, l.shape.get? table = some sh → sh.foreignKeys = KeyOutcome.keysOn os table) ∧
      l.warnings = a.columns.flatMap ColumnRow.warnings ++ os.filterMap KeyOutcome.warning? ++
        (listings a.indexes).filterMap IndexListing.warning? := by
  obtain ⟨k₁, k₂, hcolumns, hkeys, hindexes⟩ := h
  obtain rfl := moves_columns hcolumns
  obtain ⟨os, hos, rfl⟩ := moves_keys_iff.mp hkeys
  refine ⟨os, hos.imp fun _ _ h => ⟨h.1, h.2.2⟩, fun table sh hsh => ?_, ?_⟩
  · have hlast : (l.shape.get? table).map TableShape.foreignKeys = _ :=
      hindexes.field_eq (fun k => (k.shape.get? table).map TableShape.foreignKeys) fun g _ k l hstep => by
        obtain ⟨-, n, hn, rfl⟩ := hstep
        exact hn.field_eq (fun m => (m.get? table).map TableShape.foreignKeys)
          fun st _ m n hst => foreignKeys_stroke hst table
    rw [hsh, Option.map_some, get?_enterAll, Option.map_map, eq_comm, Option.map_eq_some_iff] at hlast
    obtain ⟨old, hold, hforeign⟩ := hlast
    rw [← hforeign]
    show old.foreignKeys ++ _ = _
    rw [(bare_columnShapes hold).foreignKeys, List.nil_append]
  · rw [warnings_moves_listings hindexes, warnings_enterAll]

end SchemaSync.Rows
