import TablePipeline.Proofs.Sql.Paths
import TablePipeline.Proofs.Text.Trimming
import TablePipeline.Proofs.Warehouse.MemoryTables

/-!
# Which table a path means

A warehouse in memory tells tables apart by their segments with dots between, and a server by its
quoted segments. So both agree where no segment has a dot in it; with one, two tables of a server
may be the same one in memory.
-/

set_option autoImplicit false

namespace TablePipeline

namespace MemoryWarehouse

variable {w w₁ w₂ : MemoryWarehouse} {target : TableSpec} {writer writer' : MemoryWriter}
  {p q s t key : String} {rows : List Row}

theorem tableKey_eq_ok :
    tableKey p = .ok key ↔
      ∃ segments, Sql.splitPath p = .ok segments ∧ String.intercalate "." segments = key := by
  unfold tableKey
  rw [Outcome.bind_eq_ok]
  simp only [Outcome.pure_eq_ok]

/-- A quoted path means the table of the path. -/
theorem tableKey_of_quotePath {d : Sql.Dialect} (h : Sql.quotePath d p = .ok s) :
    tableKey s = tableKey p := by
  unfold tableKey
  rw [Sql.splitPath_of_quotePath h]

theorem tableKey_of_quotePath_eq_ok {d : Sql.Dialect} (h : Sql.quotePath d p = .ok s) :
    ∃ key, tableKey p = .ok key := by
  obtain ⟨segments, hsegments, _⟩ := Sql.quotePath_eq_ok.mp h
  exact ⟨_, tableKey_eq_ok.mpr ⟨segments, (Sql.tablePath_eq_ok.mp hsegments).1, rfl⟩⟩

/-- Paths without dots in their segments mean the same table just if they are quoted alike. -/
theorem tableKey_eq_iff_of_undotted {d : Sql.Dialect} (hp : Sql.quotePath d p = .ok s)
    (hq : Sql.quotePath d q = .ok t) (hpd : ∀ n ∈ Sql.pathIdentifiers p, '.' ∉ n.toList)
    (hqd : ∀ n ∈ Sql.pathIdentifiers q, '.' ∉ n.toList) : tableKey q = tableKey p ↔ t = s := by
  rw [Sql.quotePath_eq_iff hp hq]
  obtain ⟨ps, hps, _⟩ := Sql.quotePath_eq_ok.mp hp
  obtain ⟨qs, hqs, _⟩ := Sql.quotePath_eq_ok.mp hq
  have hps := (Sql.tablePath_eq_ok.mp hps).1
  have hqs := (Sql.tablePath_eq_ok.mp hqs).1
  rw [Sql.pathIdentifiers, hps] at hpd
  rw [Sql.pathIdentifiers, hqs] at hqd
  constructor
  · intro h
    rw [tableKey_eq_ok.mpr ⟨qs, hqs, rfl⟩, tableKey_eq_ok.mpr ⟨ps, hps, rfl⟩] at h
    have hsegments := Sql.intercalate_inj_of_undotted (Sql.splitPath_ne_nil hqs)
      (Sql.splitPath_ne_nil hps) hqd hpd (Except.ok.inj h)
    rw [hqs, hps, hsegments]
  · intro h
    unfold tableKey
    rw [h]

/-- A full read of a quoted path gives the table that the path means. -/
theorem query_quotePath (w : MemoryWarehouse) {d : Sql.Dialect} (h : Sql.quotePath d q = .ok t) :
    w.query (queryStart ++ t) = match w.table? q with
      | some table => .ok ⟨table.columns.map (·.name), table.rows⟩
      | none => .error (.query ("relation " ++ t ++ " does not exist")) := by
  obtain ⟨key, hkey⟩ := tableKey_of_quotePath_eq_ok h
  have hlast : t.toList.getLast? = some d.quote := by
    obtain ⟨segments, hsegments, rfl⟩ := Sql.quotePath_eq_ok.mp h
    exact Sql.getLast?_quotedPath (Sql.splitPath_ne_nil (Sql.tablePath_eq_ok.mp hsegments).1)
  have htrim : Text.trim (queryStart ++ t) = queryStart ++ t := by
    refine Text.trim_of_ends ?_ ?_
    · rw [String.toList_append]
      intro c hc
      obtain rfl : 'S' = c := Option.some.inj hc
      decide
    · rw [String.toList_append, List.getLast?_append, hlast]
      intro c hc
      obtain rfl : d.quote = c := Option.some.inj hc
      cases d <;> decide
  have hstart : Text.startsWith (queryStart ++ t) queryStart = true := by
    rw [Text.startsWith, String.toList_append, List.isPrefixOf_iff_prefix]
    exact List.prefix_append _ _
  have hrest : String.ofList ((queryStart ++ t).toList.drop queryStart.length) = t := by
    rw [String.toList_append, ← String.length_toList, List.drop_left, String.ofList_toList]
  unfold query
  rw [htrim]
  dsimp only
  rw [hstart, hrest, tableKey_of_quotePath h, hkey, table?_of_key hkey]
  rfl

/-- After a batch the target table holds it behind the rows that it began with, and no other table
has changed. -/
theorem eq_put_of_written (hopen : w.openWriter target = .ok (writer, w₁))
    (hwrite : w₁.writeBatch writer rows = .ok (writer', w₂)) :
    w₂ = w.put writer.key ⟨writer.columns, w.baseRows target ++ rows⟩ := by
  obtain ⟨_, _, _, rfl⟩ := openWriter_eq_ok hopen
  have htaken := writeBatch_of_takes (takes_of_writeBatch hwrite) (get?_put w _ _)
  rw [put_put] at htaken
  exact (Prod.mk.inj (Except.ok.inj (hwrite.symm.trans htaken))).2

/-- After a batch was written to a path a full read of another path gives the table just written if
both are quoted alike, and what it gave before if they are not and no dot is in their segments.
Whatever is in them, the tables are told apart by the segments with dots between. -/
theorem query_written (w : MemoryWarehouse) (target : TableSpec) (writer : MemoryWriter)
    (w₁ : MemoryWarehouse) (rows : List Row) (writer' : MemoryWriter) (w₂ : MemoryWarehouse)
    (q t : String) (hopen : w.openWriter target = .ok (writer, w₁))
    (hwrite : w₁.writeBatch writer rows = .ok (writer', w₂))
    (hq : Sql.quotePath .postgres q = .ok t) :
    let written : RowSet := ⟨writer.columns.map (·.name), w.baseRows target ++ rows⟩
    ∃ s, Sql.quotePath .postgres target.table = .ok s ∧
      (t = s → w₂.query (queryStart ++ t) = .ok written) ∧
      (t ≠ s → (∀ n ∈ Sql.pathIdentifiers target.table, '.' ∉ n.toList) →
        (∀ n ∈ Sql.pathIdentifiers q, '.' ∉ n.toList) →
        w₂.query (queryStart ++ t) = w.query (queryStart ++ t)) ∧
      (tableKey q = tableKey target.table → w₂.query (queryStart ++ t) = .ok written) ∧
      (tableKey q ≠ tableKey target.table →
        w₂.query (queryStart ++ t) = w.query (queryStart ++ t)) := by
  intro written
  obtain ⟨s, hs, _⟩ := Outcome.bind_eq_ok.mp hopen
  have hs := Outcome.mapError_eq_ok.mp hs
  obtain ⟨hkey, _⟩ := openWriter_eq_ok hopen
  obtain rfl := eq_put_of_written hopen hwrite
  have hsame : tableKey q = tableKey target.table →
      (w.put writer.key ⟨writer.columns, w.baseRows target ++ rows⟩).query (queryStart ++ t) =
        .ok written := by
    intro h
    rw [query_quotePath _ hq, table?_of_key (h.trans hkey), get?_put]
  have hother : tableKey q ≠ tableKey target.table →
      (w.put writer.key ⟨writer.columns, w.baseRows target ++ rows⟩).query (queryStart ++ t) =
        w.query (queryStart ++ t) := by
    intro h
    rw [hkey] at h
    rw [query_quotePath _ hq, query_quotePath _ hq, table?_put_of_ne h]
  refine ⟨s, hs, ?quotedAlike, ?undotted, hsame, hother⟩
  case quotedAlike =>
    intro h
    refine hsame ?_
    rw [← tableKey_of_quotePath hq, ← tableKey_of_quotePath hs, h]
  case undotted =>
    intro h hp hq'
    exact hother fun hkeys => h ((tableKey_eq_iff_of_undotted hs hq hp hq').mp hkeys)

example : tableKey "a.b" = tableKey "\"a.b\"" ∧
    Sql.quotePath .postgres "a.b" ≠ Sql.quotePath .postgres "\"a.b\"" := by decide +kernel

/-- A table that is appended to under another spelling of its path. -/
def salesOrders : MemoryWarehouse :=
  ⟨[("sales.orders", ⟨[⟨"id", .integer⟩], [[.integer 1]]⟩)], [], none⟩

theorem query_written_salesOrders :
    ∃ writer w₁ writer' w₂,
      salesOrders.openWriter ⟨"sales.\x60orders\x60", [⟨"n", .text⟩], .append⟩ = .ok (writer, w₁) ∧
      w₁.writeBatch writer [[.integer 2]] = .ok (writer', w₂) ∧
      Sql.quotePath .postgres "\"sales\".orders" = .ok "\"sales\".\"orders\"" ∧
      w₂.query "SELECT * FROM \"sales\".\"orders\"" = .ok ⟨["id"], [[.integer 1], [.integer 2]]⟩ ∧
      w₂.query "SELECT * FROM \"orders\"" =
        .error (.query "relation \"orders\" does not exist") := by
  have hopen : salesOrders.openWriter ⟨"sales.\x60orders\x60", [⟨"n", .text⟩], .append⟩ =
      .ok (⟨"sales.orders", [⟨"id", .integer⟩], 0⟩, salesOrders) := by decide +kernel
  obtain ⟨writer', w₂, hwrite⟩ : ∃ writer' w₂, salesOrders.writeBatch
      ⟨"sales.orders", [⟨"id", .integer⟩], 0⟩ [[.integer 2]] = .ok (writer', w₂) := ⟨_, _, rfl⟩
  have hquoted : Sql.quotePath .postgres "\"sales\".orders" = .ok "\"sales\".\"orders\"" := by
    decide +kernel
  have hother : Sql.quotePath .postgres "orders" = .ok "\"orders\"" := by decide +kernel
  have htarget : Sql.quotePath .postgres "sales.\x60orders\x60" =
      .ok "\"sales\".\"orders\"" := by decide +kernel
  obtain ⟨s, hs, hsame, _⟩ := query_written _ _ _ _ _ _ _ _ _ hopen hwrite hquoted
  obtain ⟨s', hs', _, hunchanged, _⟩ := query_written _ _ _ _ _ _ _ _ _ hopen hwrite hother
  obtain rfl := Except.ok.inj (htarget.symm.trans hs)
  obtain rfl := Except.ok.inj (htarget.symm.trans hs')
  refine ⟨_, _, writer', w₂, hopen, hwrite, hquoted, hsame rfl, ?_⟩
  exact (hunchanged (by decide) (by decide +kernel) (by decide +kernel)).trans (by decide +kernel)

end MemoryWarehouse

end TablePipeline
