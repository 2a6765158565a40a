import Hound.Records.ExportTotal

/-!
# What an exported row depends on

Two accepted lines that agree on the copied values and on the two HMAC values
export to the same bytes. Whatever else they hold, and wherever, is not read.
-/

namespace Hound

open JsonTree Json Writer

/-- The fields an export reads. -/
def exportReads : List Bytes := copiedFields ++ [ascii "session_id", ascii "identifier"]

theorem writeExport_congr {j j' : Json} (session id : Bytes) (out : Nat)
    (h : ∀ key ∈ copiedFields, j.rawAt key = j'.rawAt key) :
    writeExport j session id out = writeExport j' session id out := by
  have hloop : ∀ (fields : List (Bytes × Nat)) (w : Writer), (∀ field ∈ fields, field.1 ∈ exportFields) →
      fields.foldl (Writer.copied j session) w = fields.foldl (Writer.copied j' session) w := by
    intro fields
    induction fields with
    | nil => exact fun _ _ => rfl
    | cons field fields ih =>
      intro w hfields
      have hfield := hfields field List.mem_cons_self
      have hstep : Writer.copied j session w field = Writer.copied j' session w field := by
        unfold Writer.copied
        by_cases hsession : field.1 = ascii "session_id"
        · simp only [hsession, beq_self_eq_true, if_true]
        · have hcopied : field.1 ∈ copiedFields :=
            List.mem_append_left _ (List.mem_filter.mpr ⟨hfield, by simpa using hsession⟩)
          rw [h field.1 hcopied]
      rw [List.foldl_cons, List.foldl_cons, hstep]
      exact ih _ fun field hfield => hfields field (List.mem_cons_of_mem _ hfield)
  have hfields : ∀ field ∈ exportFields.zipIdx, field.1 ∈ exportFields := by
    intro field hfield
    exact List.fst_mem_of_mem_zipIdx hfield
  unfold writeExport
  simp only [hloop _ _ hfields, h (ascii "uptime_ms") (by decide), h (ascii "privacy_mode") (by decide)]

section Runs

variable (hmac : Hmac) (key : Bytes) (out : Nat)

/-- Session and identifier reach the row through their HMAC values only. -/
theorem export_of_digests {line line' : Bytes} {j j' : Json} (hparse : Json.parse line = some j)
    (hparse' : Json.parse line' = some j') (h : Accepted j) (h' : Accepted j')
    (copied : ∀ field ∈ copiedFields, j.rawAt field = j'.rawAt field)
    (identity : hmac key (identityInput j) = hmac key (identityInput j'))
    (session : hmac key (sessionInput j) = hmac key (sessionInput j')) :
    exportLogRecord hmac line key out = exportLogRecord hmac line' key out := by
  by_cases hgo : out ≠ 0 ∧ key.length = 32
  · rw [exportLogRecord_eq hmac hparse h hgo.1 hgo.2, exportLogRecord_eq hmac hparse' h' hgo.1 hgo.2,
      identity, session]
    split
    · exact writeExport_congr _ _ _ copied
    · rfl
  · have hstop : ∀ j, (!validateLog j || out == 0 || key.length != 32) = true := by
      intro j
      simp only [Bool.or_eq_true, beq_iff_eq, bne_iff_ne]
      by_cases hzero : out = 0
      · exact .inl (.inr hzero)
      · exact .inr fun hkey => hgo ⟨hzero, hkey⟩
    unfold exportLogRecord
    simp only [hparse, hparse', hstop, if_true]

/-- Two documents that hold the same values under the names an export reads. -/
theorem export_of_fields {d d' : Document} {items items' : List (Item Field)} (ok : d.Ok) (ok' : d'.Ok)
    (hroot : d.root = Shape.group .object items) (hroot' : d'.root = Shape.group .object items')
    (h : Accepted d.json) (h' : Accepted d'.json)
    (same : ∀ field' ∈ exportReads, field items field' = field items' field') :
    exportLogRecord hmac d.text key out = exportLogRecord hmac d'.text key out := by
  have hparse : Json.parse d.text = some d.json := Json.parse_eq_some.mpr ⟨d, ok, rfl, rfl⟩
  have hparse' : Json.parse d'.text = some d'.json := Json.parse_eq_some.mpr ⟨d', ok', rfl, rfl⟩
  have hstr : ∀ name ∈ exportReads, ∀ size, d.json.str name size = d'.json.str name size := by
    intro name hname size
    rw [Json.str, Json.str, string_member ok hroot, string_member ok' hroot', same name hname]
  have hsession := hstr (ascii "session_id") (by decide) 33
  have hidentifier := hstr (ascii "identifier") (by decide) 21
  refine export_of_digests hmac key out hparse hparse' h h' (fun name hname => ?_) ?_ ?_
  · rw [Json.rawAt, Json.rawAt, raw_member ok hroot, raw_member ok' hroot',
      same name (List.mem_append_left _ hname)]
  · rw [identityInput, identityInput, hsession, hidentifier]
  · rw [sessionInput, sessionInput, hsession]

/-- Nothing but the copied values and the two HMAC values reaches the row. -/
theorem export_noninterference :
    (∀ line line' j j', Json.parse line = some j → Json.parse line' = some j' →
      validLogRecord line = true → validLogRecord line' = true →
      (∀ field ∈ copiedFields, j.rawAt field = j'.rawAt field) →
      (j.str (ascii "session_id") 33 = j'.str (ascii "session_id") 33 →
        j.str (ascii "identifier") 21 = j'.str (ascii "identifier") 21 →
        exportLogRecord hmac line key out = exportLogRecord hmac line' key out) ∧
      (hmac key (identityInput j) = hmac key (identityInput j') →
        hmac key (sessionInput j) = hmac key (sessionInput j') →
        exportLogRecord hmac line key out = exportLogRecord hmac line' key out)) ∧
    (∀ (d d' : Document) (items items' : List (Item Field)), d.Ok → d'.Ok →
      d.root = Shape.group .object items → d'.root = Shape.group .object items' →
      validLogRecord d.text = true → validLogRecord d'.text = true →
      (∀ field' ∈ exportReads, field items field' = field items' field') →
      exportLogRecord hmac d.text key out = exportLogRecord hmac d'.text key out) := by
  have haccepted : ∀ {line j}, Json.parse line = some j → validLogRecord line = true → Accepted j := by
    intro line j hparse hvalid
    rw [validLogRecord, hparse] at hvalid
    exact (validateLog_iff j).mp hvalid
  constructor
  · intro line line' j j' hparse hparse' hvalid hvalid' copied
    have h := haccepted hparse hvalid
    have h' := haccepted hparse' hvalid'
    refine ⟨fun hsession hidentifier => ?_, export_of_digests hmac key out hparse hparse' h h' copied⟩
    refine export_of_digests hmac key out hparse hparse' h h' copied ?_ ?_
    · rw [identityInput, identityInput, hsession, hidentifier]
    · rw [sessionInput, sessionInput, hsession]
  · intro d d' items items' ok ok' hroot hroot' hvalid hvalid' same
    have hparse : Json.parse d.text = some d.json := Json.parse_eq_some.mpr ⟨d, ok, rfl, rfl⟩
    have hparse' : Json.parse d'.text = some d'.json := Json.parse_eq_some.mpr ⟨d', ok', rfl, rfl⟩
    exact export_of_fields hmac key out ok ok' hroot hroot' (haccepted hparse hvalid)
      (haccepted hparse' hvalid') same

end Runs

/-- The same sighting with another address type, average and meal flag. -/
def otherDetection : Detection :=
  { quotingDetection with addressType := 1, rssiSum := -8, meal := true }

theorem otherDetection_recordable : Recordable otherDetection :=
  { quotingDetection_recordable with
    above := by decide
    below := by decide }

def otherLine : Bytes := writeRecord quotingPack otherDetection quotingSession quotingToken true 2048 0

theorem export_noninterference_quoting :
    exportLogRecord quotingHmac quotingLine countingKey 2048 =
      exportLogRecord quotingHmac otherLine countingKey 2048 := by
  have hs : IsSession quotingSession := by decide
  have ht : IsToken quotingToken := by decide
  have ok : (recordRow quotingPack quotingDetection quotingSession quotingToken true 0).Ok :=
    recordRow_ok quotingDetection_recordable hs ht
  have ok' : (recordRow quotingPack otherDetection quotingSession quotingToken true 0).Ok :=
    recordRow_ok otherDetection_recordable hs ht
  have hvalid : validLogRecord quotingLine = true := record_valid quotingDetection_recordable hs ht
  have hvalid' : validLogRecord otherLine = true := record_valid otherDetection_recordable hs ht
  rw [quotingLine, writeRecord_row quotingDetection_recordable hs ht] at hvalid ⊢
  rw [otherLine, writeRecord_row otherDetection_recordable hs ht] at hvalid' ⊢
  refine (export_noninterference quotingHmac countingKey 2048).2 _ _ _ _ ok.document ok'.document
    (Row.root_document _) (Row.root_document _) hvalid hvalid' fun key hkey => ?_
  rw [Row.field_item ok.plain, Row.field_item ok'.plain]
  simp only [exportReads, copiedFields, exportFields, List.mem_append, List.mem_filter, List.mem_cons,
    List.not_mem_nil, or_false] at hkey
  rcases hkey with (⟨hkey, -⟩ | hkey) | hkey
  · rcases hkey with rfl | rfl | rfl | rfl | rfl | rfl | rfl | rfl | rfl | rfl | rfl | rfl | rfl | rfl |
      rfl | rfl | rfl | rfl <;> rfl
  · rcases hkey with rfl | rfl <;> rfl
  · rcases hkey with rfl | rfl <;> rfl

end Hound
