import DesignCoupling.CommandLine.Program
import DesignCoupling.Proofs.Json.Datum

/-!
# Rows in print

A command prints its rows in one of two forms: a line for each row, or one JSON text that is read
back as a list with an object for each row.
-/

namespace DesignCoupling.CommandLine

open Json

/-- The object for a row: its entity with its kind, and its value where that was asked for. -/
def Row.datum (row : Row) : Datum :=
  .object ([("entity", .text row.entity), ("kind", .text row.kind.label)] ++
    match row.value with
    | none => []
    | some n => [("metric", .text "Ce"), ("value", .count n)])

/-- An output holds these rows, each once and in their order. As text, a row is the line with its
entity and, behind a tab, its value or else its kind. -/
structure Prints (json : Bool) (rows : List Row) (output : String) : Prop where
  text : json = false → output = String.join (rows.map fun row =>
    row.entity ++ "\t" ++ row.value.elim row.kind.label toString ++ "\n")
  objects : json = true → Datum.parse output = .ok (.list (rows.map Row.datum))

theorem Row.datum_tree (row : Row) : row.tree.datum = row.datum := by
  obtain ⟨entity, kind, value⟩ := row
  cases value <;> rfl

theorem Row.depth_tree (row : Row) : row.tree.depth = 1 := by
  obtain ⟨entity, kind, value⟩ := row
  cases value <;> rfl

theorem depth_rows (rows : List Row) : Tree.itemDepth (rows.map Row.tree) ≤ 2 := by
  induction rows with
  | nil => simp [Tree.itemDepth]
  | cons row rows ih =>
      rw [List.map_cons, Tree.itemDepth, row.depth_tree]
      omega

theorem parse_render (rows : List Row) :
    Datum.parse (render true rows) = .ok (.list (rows.map Row.datum)) := by
  have hdepth : (Tree.list (rows.map Row.tree)).depth ≤ 128 :=
    Nat.le_trans (depth_rows rows) (by decide)
  have hdata : (Tree.list (rows.map Row.tree)).datum = .list (rows.map Row.datum) := by
    rw [Tree.datum, Tree.itemData_eq_map, List.map_map]
    simp only [Function.comp_def, Row.datum_tree]
  rw [render, if_pos rfl, Tree.parse_printed hdepth, hdata]

theorem Row.text_eq (row : Row) :
    row.text = row.entity ++ "\t" ++ row.value.elim row.kind.label toString ++ "\n" := by
  obtain ⟨entity, kind, value⟩ := row
  cases value <;> rfl

theorem prints_render (json : Bool) (rows : List Row) : Prints json rows (render json rows) where
  text := by
    rintro rfl
    simp only [render, Bool.false_eq_true, if_false, funext Row.text_eq]
  objects := by
    rintro rfl
    exact parse_render rows

end DesignCoupling.CommandLine
