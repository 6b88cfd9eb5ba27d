import GaiaServer.Framework.JsonLines
import GaiaServer.Impl.Logging

/-!
# What a log can be read back to

Each record of a log is one line of printable ASCII, whatever newlines, quotes and other
characters its message and its exception have, and each line is decoded to the fields of its
record (`log_lines`). A record whose message cannot be made leaves no trace.
-/

namespace Gaia

open Json (Printable PrintableArgs Separators linesText loadLines strTree strDict)

/-- The fields of a record, if its message can be made. -/
def LogRecord.fields (record : LogRecord) : Option (List (String × String)) :=
  record.message.toOption.map (JsonFormatter.payload record)

theorem separators_default : Separators {} where
  item := ⟨[' '], by decide, List.forall_mem_singleton.mpr rfl⟩
  key := ⟨[' '], by decide, List.forall_mem_singleton.mpr rfl⟩

theorem printable_default : PrintableArgs {} where
  item := by decide
  key := by decide

/-- The keys of a record differ. -/
theorem nodup_fields {record : LogRecord} {items : List (String × String)}
    (h : record.fields = some items) : (items.map Prod.fst).Nodup := by
  obtain ⟨msg, -, rfl⟩ := Option.map_eq_some_iff.mp h
  rw [JsonFormatter.payload]
  cases record.excInfo <;> simp

theorem emit_eq (stream : String) (record : LogRecord) : emit stream record =
    stream ++ String.ofList (linesText {} (record.fields.toList.map strTree)) := by
  cases hmsg : record.message with
  | error exc =>
    have hformat : JsonFormatter.format record = .error exc := by
      rw [JsonFormatter.format, hmsg]
      rfl
    rw [emit, hformat, LogRecord.fields, hmsg]
    exact (String.append_empty ..).symm
  | ok msg =>
    have hformat : JsonFormatter.format record =
        .ok (String.ofList (Json.print {} (strTree (JsonFormatter.payload record msg)))) := by
      rw [JsonFormatter.format, hmsg]
      show jsonDumps {} (strDict (JsonFormatter.payload record msg)) = _
      rw [jsonDumps, Json.dumps_strDict rfl]
      rfl
    rw [emit, hformat, LogRecord.fields, hmsg]
    apply String.toList_injective
    simp [linesText, Except.toOption]

/-- The text of a log. -/
theorem run_emit (stream : String) (records : List LogRecord) :
    Machine.run emit stream records = stream ++
      String.ofList (linesText {} ((records.filterMap LogRecord.fields).map strTree)) := by
  induction records generalizing stream with
  | nil => exact (String.append_empty ..).symm
  | cons record records ih =>
    have hcons : Machine.run emit stream (record :: records) =
        Machine.run emit (emit stream record) records := rfl
    rw [hcons, ih, emit_eq, List.filterMap_cons]
    apply String.toList_injective
    cases record.fields <;> simp [linesText]

theorem logged_eq (records : List LogRecord) : logged records =
    String.ofList (linesText {} ((records.filterMap LogRecord.fields).map strTree)) :=
  (run_emit "" records).trans (String.empty_append ..)

/-- A log is printable ASCII and newlines, and decoded line by line it gives the fields of the
records whose messages could be made, in order and nothing else. -/
theorem log_lines (reprFloat : String → String) (records : List LogRecord) :
    (∀ c ∈ (logged records).toList, c = '\n' ∨ Printable c) ∧
    loadLines reprFloat (logged records).toList =
      (records.filterMap LogRecord.fields).map fun items => some (strDict items) := by
  rw [logged_eq, String.toList_ofList]
  have htrees : ∀ t ∈ (records.filterMap LogRecord.fields).map strTree,
      Json.Encoded reprFloat t := by
    intro t ht
    obtain ⟨items, -, rfl⟩ := List.mem_map.mp ht
    exact Json.encoded_strTree items
  constructor
  · intro c hc
    obtain ⟨t, ht, hc⟩ := List.mem_flatMap.mp hc
    rcases List.mem_append.mp hc with hc | hc
    · exact .inr (Json.print_printable printable_default (htrees t ht) c hc)
    · exact .inl (List.mem_singleton.mp hc)
  · rw [Json.loads_lines separators_default printable_default htrees, List.map_map]
    refine List.map_congr_left fun items hitems => ?_
    obtain ⟨record, -, hfields⟩ := List.mem_filterMap.mp hitems
    exact congrArg some (Json.value_strTree (nodup_fields hfields))

end Gaia
