/-
Columns with the same flags.

* `ColumnEntry.SameFlags`: columns that agree in all but their types and what these point at;
* `sameFlags_table`: a column in the place of another one that has the same flags leaves the flags
  and the indexes of the table as they are.
-/
import SchemaReader.Proofs.Schema.SameFlags

namespace SchemaReader

variable {table table' : Table}

namespace Ddl

/-! ### Entries -/

/-- Two columns of one name with the same flags. -/
structure ColumnEntry.SameFlags (entry entry' : ColumnEntry) : Prop where
  name : entry.name = entry'.name
  nullable : entry.nullable = entry'.nullable
  primaryKey : entry.primaryKey = entry'.primaryKey
  unique : entry.unique = entry'.unique

variable {entry entry' : ColumnEntry}

lemma sameFlags_addNamedIndex (h : table.SameFlags table') (name : Option String)
    (columns : List String) (unique : Bool) :
    (addNamedIndex name columns unique table).SameFlags
      (addNamedIndex name columns unique table') := by
  rw [addNamedIndex, addNamedIndex, h.name]
  exact h.addIndex _

/-- An entry does not look at the types of the columns that are there, nor at what they point at. -/
lemma sameFlags_applyTo (h : table.SameFlags table') (entry : TableEntry) :
    (entry.applyTo table).SameFlags (entry.applyTo table') := by
  cases entry with
  | column entry =>
      simp only [TableEntry.applyTo, h.name]
      split
      · exact (h.addColumn rfl).addIndex _
      · exact h.addColumn rfl
  | primaryKey names => exact h.markPrimaryKey names
  | unique name columns =>
      simp only [TableEntry.applyTo]
      split
      · exact h
      · exact sameFlags_addNamedIndex h name columns true
  | index name columns => exact sameFlags_addNamedIndex h name columns false
  | foreignKey | otherConstraint | unrecognized => exact h

lemma sameFlags_foldl_applyTo (h : table.SameFlags table') (entries : List TableEntry) :
    (entries.foldl TableEntry.applyTo table).SameFlags (entries.foldl TableEntry.applyTo table') :=
  Table.SameFlags.foldl TableEntry.applyTo (fun entry ht => sameFlags_applyTo ht entry) entries h

lemma sameFlags_column (h : entry.SameFlags entry') (table : Table) :
    ((TableEntry.column entry).applyTo table).SameFlags
      ((TableEntry.column entry').applyTo table) := by
  have hcolumn : Column.flags ⟨entry.name, entry.type, entry.nullable, entry.primaryKey, none⟩
      = Column.flags ⟨entry'.name, entry'.type, entry'.nullable, entry'.primaryKey, none⟩ := by
    rw [Column.flags, Column.flags, h.name, h.nullable, h.primaryKey]
  have hgrown := (Table.SameFlags.refl table).addColumn hcolumn
  simp only [TableEntry.applyTo, h.unique, h.name] at hgrown ⊢
  split
  · exact hgrown.addIndex _
  · exact hgrown

/-- What columns point at is no flag. -/
lemma sameFlags_linkEdges (edges : List Relation) (table : Table) :
    table.SameFlags (linkEdges edges table) := by
  rw [linkEdges]
  refine List.foldlRecOn (motive := table.SameFlags) edges _ (.refl table) fun t ht edge _ => ?_
  have hcolumns : (t.updateColumn edge.fromColumn fun c =>
      { c with references := some ⟨edge.toTable, edge.toColumn⟩ }).columns.map Column.flags
        = t.columns.map Column.flags := t.map_columns_updateColumn Column.flags _ fun _ => rfl
  exact ht.trans ⟨rfl, hcolumns.symm, rfl⟩

/-- A column in the place of another one that has the same flags leaves the flags and the indexes of
a table as they are, whatever entries stand around it. -/
theorem sameFlags_table (h : entry.SameFlags entry') (name : String)
    (front behind : List TableEntry) :
    (CreateTable.table ⟨name, front ++ .column entry :: behind⟩).SameFlags
      (CreateTable.table ⟨name, front ++ .column entry' :: behind⟩) := by
  have hfold : ((front ++ .column entry :: behind).foldl TableEntry.applyTo
      (Table.empty name)).SameFlags
      ((front ++ .column entry' :: behind).foldl TableEntry.applyTo (Table.empty name)) := by
    rw [List.foldl_append, List.foldl_append]
    exact sameFlags_foldl_applyTo (sameFlags_column h _) behind
  exact (sameFlags_linkEdges _ _).symm.trans (hfold.trans (sameFlags_linkEdges _ _))

end Ddl

end SchemaReader
