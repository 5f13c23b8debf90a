import Mathlib.Tactic.SplitIfs
import Kinetick.History.Revision
import Kinetick.Proofs.HistoryEnvelope
import Kinetick.Proofs.JsonlReadCache

/-!
# Revisions through what is owned

Whatever is kept of records and arrays is what would be computed of them anew, since they are never
changed and an identity is never used twice. So a revision is that of any copy of the records.
-/

namespace Kinetick

namespace HistoryRevision

open HistoryEnvelope HistorySequence
open Jsonl (CacheValid Agrees)

variable (codec : Codec)

/-! ## The bytes that are hashed -/

/-- The texts of the records from the index on, with a comma before each but the first. -/
def recordBytes : (index : ℕ) → List CanonicalHistoryEnvelope → List UInt8
  | _, [] => []
  | index, envelope :: envelopes =>
    (if 0 < index then utf8 [','] else []) ++ utf8 (canonicalJson codec.format envelope) ++
      recordBytes (index + 1) envelopes

def prefixOf (envelopes : List CanonicalHistoryEnvelope) : List UInt8 :=
  utf8 ['['] ++ recordBytes codec 0 envelopes

def revisionOf (envelopes : List CanonicalHistoryEnvelope) : String :=
  "sha256:" ++ codec.sha256 (prefixOf codec envelopes ++ utf8 [']'])

/-- The revision of the values of records. -/
def plainRevision (active : Bool) (envelopes : List CanonicalHistoryEnvelope) :
    Except String String := do
  let inspection ← inspectCanonicalHistorySequence envelopes
  acceptInspection active envelopes.length inspection
  return revisionOf codec envelopes

theorem recordBytes_append (index : ℕ) (envelopes more : List CanonicalHistoryEnvelope) :
    recordBytes codec index (envelopes ++ more) =
      recordBytes codec index envelopes ++ recordBytes codec (index + envelopes.length) more := by
  induction envelopes generalizing index with
  | nil => simp [recordBytes]
  | cons envelope envelopes ih =>
    have hindex : index + 1 + envelopes.length = index + (envelope :: envelopes).length := by
      rw [List.length_cons]
      omega
    simp only [List.cons_append, recordBytes, ih, hindex, List.append_assoc]

/-! ## What is kept -/

/-- The texts that are kept are those of the records. -/
structure RecordsKept (E : ℕ → CanonicalHistoryEnvelope) (owned : OwnedHistory) : Prop where
  json : ∀ i text, owned.ownedEnvelopeJson i = some (some text) →
    text = canonicalJson codec.format (E i)
  fresh : ∀ i, owned.nextRecord ≤ i → owned.ownedEnvelopeJson i = none

/-- The record has its identity and was decoded. -/
structure Made (E : ℕ → CanonicalHistoryEnvelope) (owned : OwnedHistory)
    (record : EnvelopeObject) : Prop where
  identity : record.identity < owned.nextRecord
  same : E record.identity = record.envelope
  proper : Proper codec.isSensitiveKey record.envelope

/-- What is kept of an array is what is computed of its records. -/
structure ArraysKept (A : ℕ → List EnvelopeObject) (nextArray : ℕ) (owned : OwnedHistory) :
    Prop where
  revisions : ∀ i revision, owned.ownedRevisions i = some revision →
    revision = revisionOf codec ((A i).map (·.envelope))
  prefixes : ∀ i hash, owned.ownedRevisionPrefixes i = some hash →
    hash = prefixOf codec ((A i).map (·.envelope))
  sequences : ∀ i inspection, owned.ownedSequences i = some inspection →
    inspectCanonicalHistorySequence ((A i).map (·.envelope)) = .ok inspection
  fresh : ∀ i, nextArray ≤ i → owned.ownedRecordArrays i = false ∧ owned.ownedRevisions i = none ∧
    owned.ownedRevisionPrefixes i = none ∧ owned.ownedSequences i = none

structure Known (E : ℕ → CanonicalHistoryEnvelope) (A : ℕ → List EnvelopeObject)
    (nextArray : ℕ) (owned : OwnedHistory) (array : EnvelopeArray) : Prop where
  identity : array.identity < nextArray
  records : A array.identity = array.records
  made : ∀ record ∈ array.records, Made codec E owned record

/-- More records are made, and of arrays nothing changes. -/
structure Grows (E : ℕ → CanonicalHistoryEnvelope) (owned : OwnedHistory)
    (E' : ℕ → CanonicalHistoryEnvelope) (owned' : OwnedHistory) : Prop where
  kept : RecordsKept codec E' owned'
  nextRecord : owned.nextRecord ≤ owned'.nextRecord
  same : ∀ i, i < owned.nextRecord → E' i = E i
  recordArrays : owned'.ownedRecordArrays = owned.ownedRecordArrays
  revisions : owned'.ownedRevisions = owned.ownedRevisions
  prefixes : owned'.ownedRevisionPrefixes = owned.ownedRevisionPrefixes
  sequences : owned'.ownedSequences = owned.ownedSequences

section

variable {codec} {E E' E'' : ℕ → CanonicalHistoryEnvelope} {A : ℕ → List EnvelopeObject}
  {owned owned' owned'' : OwnedHistory} {nextArray : ℕ} {array : EnvelopeArray}
  {record : EnvelopeObject}

theorem RecordsKept.grows (h : RecordsKept codec E owned) : Grows codec E owned E owned :=
  ⟨h, Nat.le_refl _, fun _ _ => rfl, rfl, rfl, rfl, rfl⟩

theorem Grows.trans (h : Grows codec E owned E' owned') (h' : Grows codec E' owned' E'' owned'') :
    Grows codec E owned E'' owned'' where
  kept := h'.kept
  nextRecord := h.nextRecord.trans h'.nextRecord
  same i hi := (h'.same i (Nat.lt_of_lt_of_le hi h.nextRecord)).trans (h.same i hi)
  recordArrays := h'.recordArrays.trans h.recordArrays
  revisions := h'.revisions.trans h.revisions
  prefixes := h'.prefixes.trans h.prefixes
  sequences := h'.sequences.trans h.sequences

theorem Made.grows (h : Made codec E owned record) (hgrows : Grows codec E owned E' owned') :
    Made codec E' owned' record where
  identity := Nat.lt_of_lt_of_le h.identity hgrows.nextRecord
  same := (hgrows.same _ h.identity).trans h.same
  proper := h.proper

theorem ArraysKept.grows (h : ArraysKept codec A nextArray owned)
    (hgrows : Grows codec E owned E' owned') : ArraysKept codec A nextArray owned' where
  revisions := by rw [hgrows.revisions]; exact h.revisions
  prefixes := by rw [hgrows.prefixes]; exact h.prefixes
  sequences := by rw [hgrows.sequences]; exact h.sequences
  fresh := by
    rw [hgrows.recordArrays, hgrows.revisions, hgrows.prefixes, hgrows.sequences]
    exact h.fresh

/-- A new array takes the next identity. -/
theorem ArraysKept.add (h : ArraysKept codec A nextArray owned) (records : List EnvelopeObject) :
    ArraysKept codec (Function.update A nextArray records) (nextArray + 1) owned := by
  obtain ⟨-, hrevision, hpre, hsequence⟩ := h.fresh nextArray (Nat.le_refl _)
  refine ⟨fun i revision hi => ?_, fun i hash hi => ?_, fun i inspection hi => ?_,
    fun i hi => h.fresh i (by omega)⟩
  · have hne : i ≠ nextArray := by rintro rfl; simp [hrevision] at hi
    rw [Function.update_of_ne hne]
    exact h.revisions i revision hi
  · have hne : i ≠ nextArray := by rintro rfl; simp [hpre] at hi
    rw [Function.update_of_ne hne]
    exact h.prefixes i hash hi
  · have hne : i ≠ nextArray := by rintro rfl; simp [hsequence] at hi
    rw [Function.update_of_ne hne]
    exact h.sequences i inspection hi

theorem Known.add (h : Known codec E A nextArray owned array) (records : List EnvelopeObject) :
    Known codec E (Function.update A nextArray records) (nextArray + 1) owned array := by
  have hid := h.identity
  refine ⟨by omega, ?_, h.made⟩
  rw [Function.update_of_ne (by omega)]
  exact h.records

theorem Known.new {records : List EnvelopeObject}
    (hmade : ∀ record ∈ records, Made codec E owned record) :
    Known codec E (Function.update A nextArray records) (nextArray + 1) owned
      { identity := nextArray, records } :=
  ⟨Nat.lt_succ_self _, by simp, hmade⟩

theorem Known.grows (h : Known codec E A nextArray owned array)
    (hgrows : Grows codec E owned E' owned') : Known codec E' A nextArray owned' array :=
  ⟨h.identity, h.records, fun record hrecord => (h.made record hrecord).grows hgrows⟩

/-! ## Hashing -/

theorem serialized_text (h : RecordsKept codec E owned) (hmade : Made codec E owned record) :
    (serialized codec record owned).1 = canonicalJson codec.format record.envelope ∧
      Grows codec E owned E (serialized codec record owned).2 := by
  unfold serialized
  dsimp only
  split
  · rename_i kept hkept
    refine ⟨?_, h.grows⟩
    rw [h.json _ _ hkept, hmade.same]
  · refine ⟨rfl, ⟨fun i text hi => ?_, fun i hi => ?_⟩, Nat.le_refl _, fun _ _ => rfl, rfl, rfl,
      rfl, rfl⟩
    · by_cases hid : i = record.identity
      · subst hid
        simp only [Function.update_self, Option.some.injEq] at hi
        rw [← hi, hmade.same]
      · simp only [Function.update_of_ne hid] at hi
        exact h.json i text hi
    · have hid : i ≠ record.identity := by
        have := hmade.identity
        simp only at hi
        omega
      simp only [Function.update_of_ne hid]
      exact h.fresh i hi
  · exact ⟨rfl, h.grows⟩

theorem updateRevisionPrefix_bytes (records : List EnvelopeObject) :
    ∀ (hash : List UInt8) (index : ℕ) (owned : OwnedHistory), RecordsKept codec E owned →
      (∀ record ∈ records, Made codec E owned record) →
      (updateRevisionPrefix codec hash index records owned).1 =
          hash ++ recordBytes codec index (records.map (·.envelope)) ∧
        Grows codec E owned E (updateRevisionPrefix codec hash index records owned).2 := by
  induction records with
  | nil =>
    intro hash index owned h _
    exact ⟨by simp [updateRevisionPrefix, recordBytes], h.grows⟩
  | cons record records ih =>
    intro hash index owned h hmade
    obtain ⟨htext, hgrows⟩ := serialized_text h (hmade record List.mem_cons_self)
    simp only [updateRevisionPrefix]
    obtain ⟨hbytes, hgrows'⟩ := ih
      ((if 0 < index then hash ++ utf8 [','] else hash) ++ utf8 (serialized codec record owned).1)
      (index + 1) (serialized codec record owned).2 hgrows.kept
      fun record' h' => (hmade record' (List.mem_cons_of_mem _ h')).grows hgrows
    refine ⟨?_, hgrows.trans hgrows'⟩
    rw [hbytes, htext, List.map_cons, recordBytes]
    split_ifs <;> simp only [List.append_assoc, List.nil_append]

/-! ## What is kept of arrays -/

/-- Everything that is kept is right, and no records are made. -/
structure Settles (codec : Codec) (E : ℕ → CanonicalHistoryEnvelope) (A : ℕ → List EnvelopeObject)
    (nextArray : ℕ) (owned owned' : OwnedHistory) : Prop where
  records : RecordsKept codec E owned'
  arrays : ArraysKept codec A nextArray owned'
  nextRecord : owned'.nextRecord = owned.nextRecord

theorem Grows.settles (hgrows : Grows codec E owned E owned')
    (h : ArraysKept codec A nextArray owned) (hnext : owned'.nextRecord = owned.nextRecord) :
    Settles codec E A nextArray owned owned' :=
  ⟨hgrows.kept, h.grows hgrows, hnext⟩

theorem Known.settles (h : Known codec E A nextArray owned array)
    (hsettles : Settles codec E A nextArray owned owned') :
    Known codec E A nextArray owned' array :=
  ⟨h.identity, h.records, fun record hrecord =>
    ⟨hsettles.nextRecord ▸ (h.made record hrecord).identity, (h.made record hrecord).same,
      (h.made record hrecord).proper⟩⟩

theorem updateRevisionPrefix_nextRecord (records : List EnvelopeObject) :
    ∀ (hash : List UInt8) (index : ℕ) (owned : OwnedHistory),
      (updateRevisionPrefix codec hash index records owned).2.nextRecord = owned.nextRecord := by
  induction records with
  | nil => intro hash index owned; rfl
  | cons record records ih =>
    intro hash index owned
    have hserialized : (serialized codec record owned).2.nextRecord = owned.nextRecord := by
      unfold serialized
      dsimp only
      split <;> rfl
    simp only [updateRevisionPrefix]
    rw [ih, hserialized]

/-- A hash that is right is kept for an array. -/
theorem ArraysKept.keepPrefix (h : ArraysKept codec A nextArray owned)
    (hknown : array.identity < nextArray) {hash : List UInt8}
    (hhash : hash = prefixOf codec ((A array.identity).map (·.envelope))) :
    ArraysKept codec A nextArray { owned with
      ownedRevisionPrefixes :=
        Function.update owned.ownedRevisionPrefixes array.identity (some hash) } where
  revisions := h.revisions
  sequences := h.sequences
  prefixes i hash' hi := by
    by_cases hid : i = array.identity
    · subst hid
      simp only [Function.update_self, Option.some.injEq] at hi
      exact hi ▸ hhash
    · simp only [Function.update_of_ne hid] at hi
      exact h.prefixes i hash' hi
  fresh i hi := by
    have hid : i ≠ array.identity := by omega
    simp only [Function.update_of_ne hid]
    exact h.fresh i hi

theorem revisionPrefix_bytes (hrecords : RecordsKept codec E owned)
    (harrays : ArraysKept codec A nextArray owned)
    (hknown : Known codec E A nextArray owned array) :
    (revisionPrefix codec array owned).1 = prefixOf codec (array.records.map (·.envelope)) ∧
      Settles codec E A nextArray owned (revisionPrefix codec array owned).2 := by
  unfold revisionPrefix
  split
  · rename_i hash hhash
    refine ⟨?_, hrecords, harrays, rfl⟩
    rw [harrays.prefixes _ _ hhash, hknown.records]
  · obtain ⟨hbytes, hgrows⟩ :=
      updateRevisionPrefix_bytes array.records (utf8 ['[']) 0 owned hrecords hknown.made
    have hnext := @updateRevisionPrefix_nextRecord codec array.records (utf8 ['[']) 0 owned
    have hpre : (updateRevisionPrefix codec (utf8 ['[']) 0 array.records owned).1 =
        prefixOf codec (array.records.map (·.envelope)) := hbytes
    dsimp only
    split_ifs
    · refine ⟨hpre, ⟨hgrows.kept.json, hgrows.kept.fresh⟩, ?_, hnext⟩
      exact (harrays.grows hgrows).keepPrefix hknown.identity (by rw [hpre, hknown.records])
    · exact ⟨hpre, hgrows.settles harrays hnext⟩

theorem revisionOfNormalized_eq (hrecords : RecordsKept codec E owned)
    (harrays : ArraysKept codec A nextArray owned)
    (hknown : Known codec E A nextArray owned array) :
    (revisionOfNormalized codec array owned).1 =
        revisionOf codec (array.records.map (·.envelope)) ∧
      Settles codec E A nextArray owned (revisionOfNormalized codec array owned).2 := by
  unfold revisionOfNormalized
  split
  · rename_i revision hrevision
    refine ⟨?_, hrecords, harrays, rfl⟩
    rw [harrays.revisions _ _ hrevision, hknown.records]
  · obtain ⟨hbytes, hsettles⟩ := revisionPrefix_bytes hrecords harrays hknown
    have hrevision : "sha256:" ++ codec.sha256 ((revisionPrefix codec array owned).1 ++
        utf8 [']']) = revisionOf codec (array.records.map (·.envelope)) := by
      rw [hbytes, revisionOf]
    dsimp only
    split_ifs
    · refine ⟨hrevision, ⟨hsettles.records.json, hsettles.records.fresh⟩,
        ⟨fun i revision hi => ?_, hsettles.arrays.prefixes, hsettles.arrays.sequences,
          fun i hi => ?_⟩, hsettles.nextRecord⟩
      · by_cases hid : i = array.identity
        · subst hid
          simp only [Function.update_self, Option.some.injEq] at hi
          rw [← hi, hrevision, hknown.records]
        · simp only [Function.update_of_ne hid] at hi
          exact hsettles.arrays.revisions i revision hi
      · have hid : i ≠ array.identity := by
          have := hknown.identity
          omega
        simp only [Function.update_of_ne hid]
        exact hsettles.arrays.fresh i hi
    · exact ⟨hrevision, hsettles⟩

theorem inspectOwnedSequence_eq (hrecords : RecordsKept codec E owned)
    (harrays : ArraysKept codec A nextArray owned)
    (hknown : Known codec E A nextArray owned array) :
    (inspectOwnedSequence array owned).1 =
        inspectCanonicalHistorySequence (array.records.map (·.envelope)) ∧
      Settles codec E A nextArray owned (inspectOwnedSequence array owned).2 := by
  have hsame : Settles codec E A nextArray owned owned := ⟨hrecords, harrays, rfl⟩
  unfold inspectOwnedSequence
  split
  · rename_i inspection hinspection
    refine ⟨?_, hsame⟩
    rw [← harrays.sequences _ _ hinspection, hknown.records]
  · split
    · rename_i e he
      exact ⟨he.symm, hsame⟩
    · rename_i inspection hinspection
      split_ifs
      · refine ⟨hinspection.symm, ⟨hrecords.json, hrecords.fresh⟩,
          ⟨harrays.revisions, harrays.prefixes, fun i inspection' hi => ?_, fun i hi => ?_⟩, rfl⟩
        · by_cases hid : i = array.identity
          · subst hid
            simp only [Function.update_self, Option.some.injEq] at hi
            rw [hknown.records, hinspection, hi]
          · simp only [Function.update_of_ne hid] at hi
            exact harrays.sequences i inspection' hi
        · have hid : i ≠ array.identity := by
            have := hknown.identity
            omega
          simp only [Function.update_of_ne hid]
          exact harrays.fresh i hi
      · exact ⟨hinspection.symm, hsame⟩

/-- Records of the same identities are the same. -/
theorem same_of_identities {xs ys : List EnvelopeObject}
    (hxs : ∀ record ∈ xs, Made codec E owned record)
    (hys : ∀ record ∈ ys, Made codec E owned record)
    (h : xs.map (·.identity) = ys.map (·.identity)) :
    xs.map (·.envelope) = ys.map (·.envelope) := by
  have hx : xs.map (·.envelope) = (xs.map (·.identity)).map E := by
    rw [List.map_map]
    exact List.map_congr_left fun record hrecord => (hxs record hrecord).same.symm
  have hy : ys.map (·.envelope) = (ys.map (·.identity)).map E := by
    rw [List.map_map]
    exact List.map_congr_left fun record hrecord => (hys record hrecord).same.symm
  rw [hx, hy, h]

theorem rememberOwnedRecords_settles {records previous : EnvelopeArray}
    (hrecords : RecordsKept codec E owned) (harrays : ArraysKept codec A nextArray owned)
    (hknown : Known codec E A nextArray owned records)
    (hprevious : Known codec E A nextArray owned previous) :
    Settles codec E A nextArray owned (rememberOwnedRecords codec records previous owned) := by
  have harrays' : ArraysKept codec A nextArray { owned with
      ownedRecordArrays := Function.update owned.ownedRecordArrays records.identity true } := by
    refine ⟨harrays.revisions, harrays.prefixes, harrays.sequences, fun i hi => ?_⟩
    have hid : i ≠ records.identity := by
      have := hknown.identity
      omega
    simp only [Function.update_of_ne hid]
    exact harrays.fresh i hi
  have hrecords' : RecordsKept codec E { owned with
      ownedRecordArrays := Function.update owned.ownedRecordArrays records.identity true } :=
    ⟨hrecords.json, hrecords.fresh⟩
  unfold rememberOwnedRecords
  dsimp only
  by_cases hid : records.identity = previous.identity
  · rw [if_pos hid]
    exact ⟨hrecords', harrays', rfl⟩
  rw [if_neg hid]
  split
  · exact ⟨hrecords', harrays', rfl⟩
  rename_i hash hhash
  split_ifs with hpre
  · exact ⟨hrecords', harrays', rfl⟩
  simp only [Bool.or_eq_true, decide_eq_true_eq, not_or, not_lt, ne_eq, not_not] at hpre
  obtain ⟨hcount, hsame⟩ := hpre
  have hmade := hknown.made
  obtain ⟨hbytes, hgrows⟩ := updateRevisionPrefix_bytes
    (records.records.drop previous.records.length) hash previous.records.length
    { owned with
      ownedRecordArrays := Function.update owned.ownedRecordArrays records.identity true }
    hrecords' fun record hrecord => by
      have := hmade record (List.mem_of_mem_drop hrecord)
      exact ⟨this.identity, this.same, this.proper⟩
  have hnext := @updateRevisionPrefix_nextRecord codec
    (records.records.drop previous.records.length) hash previous.records.length
    { owned with
      ownedRecordArrays := Function.update owned.ownedRecordArrays records.identity true }
  have hvalues := same_of_identities hprevious.made
    (fun record hrecord => hmade record (List.mem_of_mem_take hrecord)) hsame
  refine ⟨⟨hgrows.kept.json, hgrows.kept.fresh⟩, ?_, hnext⟩
  refine (harrays'.grows hgrows).keepPrefix hknown.identity ?_
  rw [hbytes, harrays.prefixes _ _ hhash, hprevious.records, hknown.records, prefixOf, prefixOf,
    List.append_assoc]
  congr 1
  have hlength : 0 + ((records.records.take previous.records.length).map (·.envelope)).length =
      previous.records.length := by
    rw [List.length_map, List.length_take]
    omega
  have happend := recordBytes_append codec 0
    ((records.records.take previous.records.length).map (·.envelope))
    ((records.records.drop previous.records.length).map (·.envelope))
  rw [hlength, ← List.map_append, List.take_append_drop] at happend
  rw [hvalues]
  exact happend.symm

/-! ## Decoding -/

/-- A record that is decoded is a new one. -/
theorem newRecord_grows (h : RecordsKept codec E owned) {envelope : CanonicalHistoryEnvelope}
    (hproper : Proper codec.isSensitiveKey envelope) (kept : Option (Option (List Char)))
    (hkept : ∀ text, kept ≠ some (some text)) (hkept' : kept = none ∨ kept = some none) :
    Grows codec E owned (Function.update E owned.nextRecord envelope) { owned with
        ownedEnvelopeJson := Function.update owned.ownedEnvelopeJson owned.nextRecord kept
        nextRecord := owned.nextRecord + 1 } ∧
      Made codec (Function.update E owned.nextRecord envelope) { owned with
        ownedEnvelopeJson := Function.update owned.ownedEnvelopeJson owned.nextRecord kept
        nextRecord := owned.nextRecord + 1 } { identity := owned.nextRecord, envelope } := by
  refine ⟨⟨⟨fun i text hi => ?_, fun i hi => ?_⟩, Nat.le_succ _, fun i hi => ?_, rfl, rfl, rfl,
    rfl⟩, Nat.lt_succ_self _, by simp, hproper⟩
  · by_cases hid : i = owned.nextRecord
    · subst hid
      simp only [Function.update_self] at hi
      exact absurd hi (hkept text)
    · simp only [Function.update_of_ne hid] at hi
      rw [Function.update_of_ne hid]
      exact h.json i text hi
  · have hid : i ≠ owned.nextRecord := by
      simp only at hi
      omega
    simp only [Function.update_of_ne hid]
    exact h.fresh i (by simp only at hi; omega)
  · rw [Function.update_of_ne (by omega)]

theorem decodeOwnedEnvelope_grows (h : RecordsKept codec E owned) (value : JsValue) :
    ∃ E', Grows codec E owned E' (decodeOwnedEnvelope codec value owned).2 ∧
      ∀ record, (decodeOwnedEnvelope codec value owned).1 = .ok record →
        Made codec E' (decodeOwnedEnvelope codec value owned).2 record := by
  unfold decodeOwnedEnvelope
  split
  · exact ⟨E, h.grows, by simp⟩
  · rename_i envelope hdecode
    obtain ⟨hgrows, hmade⟩ := newRecord_grows h (decodeEnvelope_proper hdecode) (some none)
      (by simp) (Or.inr rfl)
    refine ⟨_, hgrows, fun record hrecord => ?_⟩
    simp only [Except.ok.injEq] at hrecord
    exact hrecord ▸ hmade

theorem decodeRecord_same (h : RecordsKept codec E owned) (hmade : Made codec E owned record) :
    ∃ E' decoded, (decodeRecord codec record owned).1 = .ok decoded ∧
      decoded.envelope = record.envelope ∧
      Grows codec E owned E' (decodeRecord codec record owned).2 ∧
      Made codec E' (decodeRecord codec record owned).2 decoded := by
  unfold decodeRecord
  split_ifs
  · exact ⟨E, record, rfl, rfl, h.grows, hmade⟩
  · rw [decodeEnvelope_again hmade.proper]
    have hnone := h.fresh owned.nextRecord (Nat.le_refl _)
    obtain ⟨hgrows, hnew⟩ := newRecord_grows h hmade.proper none (by simp) (Or.inl rfl)
    have hself : Function.update owned.ownedEnvelopeJson owned.nextRecord none =
        owned.ownedEnvelopeJson := by
      rw [← hnone, Function.update_eq_self]
    rw [hself] at hgrows hnew
    exact ⟨_, _, rfl, rfl, hgrows, hnew⟩

theorem decodeEach_same (records : List EnvelopeObject) :
    ∀ (E : ℕ → CanonicalHistoryEnvelope) (owned : OwnedHistory), RecordsKept codec E owned →
      (∀ record ∈ records, Made codec E owned record) →
      ∃ E' decoded, (decodeEach codec records owned).1 = .ok decoded ∧
        decoded.map (·.envelope) = records.map (·.envelope) ∧
        Grows codec E owned E' (decodeEach codec records owned).2 ∧
        ∀ record ∈ decoded, Made codec E' (decodeEach codec records owned).2 record := by
  induction records with
  | nil =>
    intro E owned h _
    exact ⟨E, [], rfl, rfl, h.grows, by simp⟩
  | cons record records ih =>
    intro E owned h hmade
    obtain ⟨E₁, first, hfirst, hsame, hgrows, hnew⟩ :=
      decodeRecord_same h (hmade record List.mem_cons_self)
    obtain ⟨E₂, rest, hrest, hrestSame, hgrows', hrestMade⟩ := ih E₁ _ hgrows.kept
      fun record' h' => (hmade record' (List.mem_cons_of_mem _ h')).grows hgrows
    have hstep : decodeEach codec (record :: records) owned =
        (.ok (first :: rest),
          (decodeEach codec records (decodeRecord codec record owned).2).2) := by
      rw [decodeEach]
      cases hdecode : decodeRecord codec record owned with
      | mk answer after =>
        rw [hdecode] at hfirst hrest
        simp only at hfirst hrest
        subst hfirst
        cases hrests : decodeEach codec records after with
        | mk answer' after' =>
          rw [hrests] at hrest
          simp only at hrest
          subst hrest
          simp [hrests]
    rw [hstep]
    refine ⟨E₂, first :: rest, rfl, by simp [hsame, hrestSame], hgrows.trans hgrows', ?_⟩
    intro record' hrecord'
    rcases List.mem_cons.1 hrecord' with rfl | hmem
    · exact hnew.grows hgrows'
    · exact hrestMade record' hmem

theorem decodeRecords_same (hrecords : RecordsKept codec E owned)
    (harrays : ArraysKept codec A nextArray owned)
    (hknown : Known codec E A nextArray owned array) :
    ∃ E' A' decoded, (decodeRecords codec array nextArray owned).1 = .ok decoded ∧
      decoded.records.map (·.envelope) = array.records.map (·.envelope) ∧
      Grows codec E owned E' (decodeRecords codec array nextArray owned).2 ∧
      ArraysKept codec A' (nextArray + 1) (decodeRecords codec array nextArray owned).2 ∧
      Known codec E' A' (nextArray + 1) (decodeRecords codec array nextArray owned).2 decoded ∧
      ∀ i, i < nextArray → A' i = A i := by
  have hothers : ∀ (records : List EnvelopeObject) (i : ℕ), i < nextArray →
      Function.update A nextArray records i = A i :=
    fun records i hi => Function.update_of_ne (by omega) _ _
  unfold decodeRecords
  split_ifs
  · exact ⟨E, _, array, rfl, rfl, hrecords.grows, harrays.add [], hknown.add [], hothers []⟩
  · obtain ⟨E', decoded, hdecoded, hsame, hgrows, hmade⟩ :=
      decodeEach_same array.records E owned hrecords hknown.made
    cases heach : decodeEach codec array.records owned with
    | mk answer after =>
      rw [heach] at hdecoded hgrows hmade
      simp only at hdecoded
      subst hdecoded
      exact ⟨E', _, _, rfl, hsame, hgrows, (harrays.grows hgrows).add decoded, Known.new hmade,
        hothers decoded⟩

/-! ## Reading -/

theorem readLineIn_grows (h : RecordsKept codec E owned) (line : String) :
    ∃ E', Grows codec E owned E' (Jsonl.readLineIn (ownedReader codec) line owned).2 ∧
      ∀ record, (Jsonl.readLineIn (ownedReader codec) line owned).1 = .ok record →
        Made codec E' (Jsonl.readLineIn (ownedReader codec) line owned).2 record := by
  unfold Jsonl.readLineIn
  split_ifs
  · exact ⟨E, h.grows, by simp⟩
  · split
    · exact ⟨E, h.grows, by simp⟩
    · exact decodeOwnedEnvelope_grows h _

theorem readRest_grows (path : String) (lines : List (List UInt8 × Bool)) :
    ∀ (E : ℕ → CanonicalHistoryEnvelope) (owned : OwnedHistory)
      (progress : Jsonl.ReadProgress EnvelopeObject), RecordsKept codec E owned →
      (∀ record ∈ progress.records, Made codec E owned record) →
      ∃ E', Grows codec E owned E'
          (Jsonl.readRest (ownedReader codec) path lines progress owned).2 ∧
        ∀ progress', (Jsonl.readRest (ownedReader codec) path lines progress owned).1 =
            .ok progress' →
          ∀ record ∈ progress'.records, Made codec E'
            (Jsonl.readRest (ownedReader codec) path lines progress owned).2 record := by
  induction lines with
  | nil =>
    intro E owned progress h hmade
    refine ⟨E, h.grows, fun progress' hprogress => ?_⟩
    simp only [Jsonl.readRest, Except.ok.injEq] at hprogress
    exact hprogress ▸ hmade
  | cons line lines ih =>
    intro E owned progress h hmade
    obtain ⟨line, ended⟩ := line
    obtain ⟨E₁, hgrows, hnew⟩ := readLineIn_grows h (Utf8.decode line)
    simp only [Jsonl.readRest]
    split
    · rename_i reason after heq
      rw [heq] at hgrows
      exact ⟨E₁, hgrows, by simp⟩
    · rename_i record after heq
      rw [heq] at hgrows hnew
      have hrecords : (progress.advance record line.length ended).records =
          progress.records ++ [record] := by
        simp only [Jsonl.ReadProgress.advance]
        split_ifs <;> rfl
      obtain ⟨E₂, hgrows', hrest⟩ := ih E₁ after (progress.advance record line.length ended)
        hgrows.kept fun record' h' => by
          rw [hrecords] at h'
          rcases List.mem_append.1 h' with hold | hmem
          · exact (hmade record' hold).grows hgrows
          · rw [List.mem_singleton.1 hmem]
            exact hnew record rfl
      exact ⟨E₂, hgrows.trans hgrows', hrest⟩

/-- The arrays a cached read leaves: that of the cache, or new ones of records that are made. -/
theorem readCachedJsonl_grows (hrecords : RecordsKept codec E owned)
    (harrays : ArraysKept codec A nextArray owned) {cache : Jsonl.JsonlReadCache EnvelopeObject}
    (hcache : Known codec E A nextArray owned cache.records) (path : String)
    (bytes : List UInt8) :
    let result := Jsonl.readCachedJsonl (ownedReader codec) path bytes cache nextArray owned
    ∃ E' A', Grows codec E owned E' result.2.2 ∧
      ArraysKept codec A' (nextArray + 2) result.2.2 ∧
      (∀ i, i < nextArray → A' i = A i) ∧
      Known codec E' A' (nextArray + 2) result.2.2 result.2.1.records ∧
      ∀ array, result.1 = .ok array → Known codec E' A' (nextArray + 2) result.2.2 array := by
  have hbelow : ∀ (xs ys : List EnvelopeObject) (i : ℕ), i < nextArray →
      Function.update (Function.update A nextArray xs) (nextArray + 1) ys i = A i := by
    intro xs ys i hi
    rw [Function.update_of_ne (by omega), Function.update_of_ne (by omega)]
  have hold : ∀ {E' owned'}, Grows codec E owned E' owned' →
      ArraysKept codec (Function.update (Function.update A nextArray []) (nextArray + 1) [])
        (nextArray + 2) owned' ∧
      Known codec E' (Function.update (Function.update A nextArray []) (nextArray + 1) [])
        (nextArray + 2) owned' cache.records := by
    intro E' owned' hgrows
    exact ⟨((harrays.grows hgrows).add []).add [], ((hcache.grows hgrows).add []).add []⟩
  dsimp only
  rcases Jsonl.readCachedJsonl_cases (ownedReader codec) path bytes cache nextArray owned with
    hsame | ⟨lines, start, after, hstart, hread⟩
  · rw [hsame]
    obtain ⟨harrays', hknown'⟩ := hold hrecords.grows
    refine ⟨E, _, hrecords.grows, harrays', hbelow [] [], hknown', fun array harray => ?_⟩
    simp only [Except.ok.injEq] at harray
    exact harray ▸ hknown'
  have hmade : ∀ record ∈ start.records, Made codec E owned record := by
    rcases hstart with hnone | hcached
    · simp [hnone]
    · rw [hcached]
      exact hcache.made
  obtain ⟨E', hgrows, hread'⟩ := readRest_grows path lines E owned start hrecords hmade
  rcases hread with ⟨e, hrest, hresult⟩ | ⟨progress, kept, hrest, hkept, hresult⟩
  · rw [hrest] at hgrows
    rw [hresult]
    obtain ⟨harrays', hknown'⟩ := hold hgrows
    exact ⟨E', _, hgrows, harrays', hbelow [] [], hknown', by simp⟩
  · rw [hrest] at hgrows hread'
    rw [hresult]
    have hnew := hread' progress rfl
    have harrays' := harrays.grows hgrows
    rcases hkept with hwhole | ⟨count, hslice⟩
    · have hknown' : Known codec E' (Function.update (Function.update A nextArray progress.records)
          (nextArray + 1) []) (nextArray + 2) after
          { identity := nextArray, records := progress.records } := (Known.new hnew).add []
      refine ⟨E', _, hgrows, (harrays'.add progress.records).add [], hbelow _ _, ?_, ?_⟩
      · rw [hwhole]
        exact hknown'
      · intro array harray
        simp only [Except.ok.injEq] at harray
        exact harray ▸ hknown'
    · have hslice' : ∀ record ∈ progress.records.take count, Made codec E' after record :=
        fun record hrecord => hnew record (List.mem_of_mem_take hrecord)
      refine ⟨E', _, hgrows, (harrays'.add progress.records).add (progress.records.take count),
        hbelow _ _, ?_, ?_⟩
      · rw [hslice]
        exact Known.new hslice'
      · intro array harray
        simp only [Except.ok.injEq] at harray
        exact harray ▸ (Known.new hnew).add _

/-! ## Steps -/

/-- What is kept stays right, and what was known stays known. -/
structure Advances (codec : Codec) (E : ℕ → CanonicalHistoryEnvelope) (A : ℕ → List EnvelopeObject)
    (nextArray : ℕ) (owned : OwnedHistory) (E' : ℕ → CanonicalHistoryEnvelope)
    (A' : ℕ → List EnvelopeObject) (nextArray' : ℕ) (owned' : OwnedHistory) : Prop where
  records : RecordsKept codec E' owned'
  arrays : ArraysKept codec A' nextArray' owned'
  known : ∀ array, Known codec E A nextArray owned array →
    Known codec E' A' nextArray' owned' array

theorem Known.agrees {A' : ℕ → List EnvelopeObject} {nextArray' : ℕ}
    (h : Known codec E A nextArray owned array) (hle : nextArray ≤ nextArray')
    (hsame : ∀ i, i < nextArray → A' i = A i) : Known codec E A' nextArray' owned array :=
  ⟨Nat.lt_of_lt_of_le h.identity hle, (hsame _ h.identity).trans h.records, h.made⟩

theorem Advances.settles {A' : ℕ → List EnvelopeObject} {nextArray' : ℕ}
    (h : Advances codec E A nextArray owned E' A' nextArray' owned')
    (hsettles : Settles codec E' A' nextArray' owned' owned'') :
    Advances codec E A nextArray owned E' A' nextArray' owned'' :=
  ⟨hsettles.records, hsettles.arrays, fun array harray => (h.known array harray).settles hsettles⟩

theorem historyRevision_eq {s : State} (hrecords : RecordsKept codec E s.owned)
    (harrays : ArraysKept codec A s.nextArray s.owned)
    (hknown : Known codec E A s.nextArray s.owned array) (active : Bool) :
    (historyRevision codec active array s).1 =
        plainRevision codec active (array.records.map (·.envelope)) ∧
      (historyRevision codec active array s).2.readCache = s.readCache ∧
      (historyRevision codec active array s).2.returned = s.returned ∧
      ∃ E' A', Advances codec E A s.nextArray s.owned E' A'
        (historyRevision codec active array s).2.nextArray
        (historyRevision codec active array s).2.owned := by
  obtain ⟨E', A', decoded, hdecoded, hsame, hgrows, harrays', hknown', hbelow⟩ :=
    decodeRecords_same hrecords harrays hknown
  cases hdecode : decodeRecords codec array s.nextArray s.owned with
  | mk answer owned₁ =>
  rw [hdecode] at hdecoded hgrows harrays' hknown'
  simp only at hdecoded
  subst hdecoded
  have hadvances : Advances codec E A s.nextArray s.owned E' A' (s.nextArray + 1) owned₁ :=
    ⟨hgrows.kept, harrays', fun other hother =>
      (hother.grows hgrows).agrees (Nat.le_succ _) hbelow⟩
  obtain ⟨hinspect, hsettles⟩ := inspectOwnedSequence_eq hgrows.kept harrays' hknown'
  have hlength : decoded.records.length = array.records.length := by
    simpa using congrArg List.length hsame
  unfold historyRevision plainRevision
  rw [hdecode, List.length_map]
  dsimp only
  rw [hsame] at hinspect
  cases hinspected : inspectOwnedSequence decoded owned₁ with
  | mk answer owned₂ =>
  rw [hinspected] at hinspect hsettles
  simp only at hinspect
  rw [← hinspect]
  cases answer with
  | error e => exact ⟨rfl, rfl, rfl, E', A', hadvances.settles hsettles⟩
  | ok inspection =>
    dsimp only
    rw [hlength]
    cases haccept : acceptInspection active array.records.length inspection with
    | error e => exact ⟨by simp [haccept, bind, Except.bind], rfl, rfl, E', A',
        hadvances.settles hsettles⟩
    | ok _ =>
      obtain ⟨hrevision, hsettles'⟩ :=
        revisionOfNormalized_eq hsettles.records hsettles.arrays (hknown'.settles hsettles)
      rw [hsame] at hrevision
      refine ⟨?_, rfl, rfl, E', A', (hadvances.settles hsettles).settles hsettles'⟩
      simp [hrevision, haccept, bind, Except.bind, pure, Except.pure]

/-- In every state what is kept is right, and the cache holds what was read. -/
structure Faithful (codec : Codec) (s : State) (E : ℕ → CanonicalHistoryEnvelope)
    (A : ℕ → List EnvelopeObject) : Prop where
  records : RecordsKept codec E s.owned
  arrays : ArraysKept codec A s.nextArray s.owned
  cache : Known codec E A s.nextArray s.owned s.readCache.records
  returned : ∀ array ∈ s.returned, Known codec E A s.nextArray s.owned array
  valid : CacheValid (envelopeReader codec) (·.envelope) s.readCache

theorem Faithful.advances {A' : ℕ → List EnvelopeObject} {s s' : State}
    (h : Faithful codec s E A)
    (hadvances : Advances codec E A s.nextArray s.owned E' A' s'.nextArray s'.owned)
    (hcache : s'.readCache = s.readCache) (hreturned : s'.returned = s.returned) :
    Faithful codec s' E' A' where
  records := hadvances.records
  arrays := hadvances.arrays
  cache := by
    rw [hcache]
    exact hadvances.known _ h.cache
  returned array harray := by
    rw [hreturned] at harray
    exact hadvances.known array (h.returned array harray)
  valid := by
    rw [hcache]
    exact h.valid

theorem ownedReader_agrees (codec : Codec) :
    Agrees (ownedReader codec) (envelopeReader codec) (·.envelope) where
  parse := rfl
  decode value owned := by
    change (decodeOwnedEnvelope codec value owned).1.map (·.envelope) =
      decodeCanonicalHistoryEnvelope codec.isSensitiveKey value
    unfold decodeOwnedEnvelope
    split <;> rename_i heq <;> rw [heq] <;> rfl

/-- Reading gives what a plain read gives. -/
theorem readEnvelopesStrict_eq {s : State} (h : Faithful codec s E A) (path : String)
    (bytes : List UInt8) :
    (readEnvelopesStrict codec path bytes s).1.map (·.records.map (·.envelope)) =
        Jsonl.readJsonlStrict (envelopeReader codec) path bytes ∧
      ∃ E' A', Faithful codec (readEnvelopesStrict codec path bytes s).2 E' A' ∧
        ∀ array, (readEnvelopesStrict codec path bytes s).1 = .ok array →
          array ∈ (readEnvelopesStrict codec path bytes s).2.returned := by
  obtain ⟨hanswer, hvalid⟩ := Jsonl.readCachedJsonl_faithful (ownedReader_agrees codec) h.valid
    path bytes s.nextArray s.owned
  obtain ⟨E', A', hgrows, harrays, hbelow, hcache, hknown⟩ :=
    readCachedJsonl_grows h.records h.arrays h.cache path bytes
  have hold : ∀ array, Known codec E A s.nextArray s.owned array → Known codec E' A'
      (s.nextArray + 2) (Jsonl.readCachedJsonl (ownedReader codec) path bytes s.readCache
        s.nextArray s.owned).2.2 array :=
    fun array harray => (harray.grows hgrows).agrees (by omega) hbelow
  unfold readEnvelopesStrict
  rcases hread : Jsonl.readCachedJsonl (ownedReader codec) path bytes s.readCache s.nextArray
    s.owned with ⟨answer, cache, owned'⟩
  rw [hread] at hanswer hvalid hgrows harrays hcache hknown hold
  cases answer with
  | error e =>
    refine ⟨hanswer, E', A', ⟨hgrows.kept, harrays, hcache, fun array harray => ?_, hvalid⟩,
      by simp⟩
    exact hold array (h.returned array harray)
  | ok array =>
    have harray := hknown array rfl
    have hsettles := rememberOwnedRecords_settles hgrows.kept harrays harray (hold _ h.cache)
    refine ⟨hanswer, E', A', ⟨hsettles.records, hsettles.arrays, hcache.settles hsettles,
      fun array' harray' => ?_, hvalid⟩, fun array' harray' => ?_⟩
    · rcases List.mem_append.1 harray' with hmem | hmem
      · exact (hold array' (h.returned array' hmem)).settles hsettles
      · rw [List.mem_singleton.1 hmem]
        exact harray.settles hsettles
    · simp only [Except.ok.injEq] at harray'
      simp [harray']

theorem Faithful.inspected {s : State} (h : Faithful codec s E A)
    (hsettles : Settles codec E A s.nextArray s.owned owned') :
    Faithful codec { s with owned := owned' } E A where
  records := hsettles.records
  arrays := hsettles.arrays
  cache := h.cache.settles hsettles
  returned array harray := (h.returned array harray).settles hsettles
  valid := h.valid

theorem readActiveWithBytes_faithful {s : State} (h : Faithful codec s E A) (path : String)
    (bytes : List UInt8) :
    ∃ E' A', Faithful codec (readActiveWithBytes codec path bytes s).2 E' A' := by
  obtain ⟨-, E', A', hfaithful, hmem⟩ := readEnvelopesStrict_eq h path bytes
  unfold readActiveWithBytes
  rcases hread : readEnvelopesStrict codec path bytes s with ⟨answer, s'⟩
  rw [hread] at hfaithful hmem
  cases answer with
  | error e => exact ⟨E', A', hfaithful⟩
  | ok array =>
    obtain ⟨-, hsettles⟩ := inspectOwnedSequence_eq hfaithful.records hfaithful.arrays
      (hfaithful.returned array (hmem array rfl))
    dsimp only
    split <;> rename_i heq <;> rw [heq] at hsettles <;>
      exact ⟨E', A', hfaithful.inspected hsettles⟩

/-- The records with identities from the next one on. -/
theorem copies_grow (h : RecordsKept codec E owned) (records : List EnvelopeObject)
    (hproper : ∀ record ∈ records, Proper codec.isSensitiveKey record.envelope) :
    ∃ E', Grows codec E owned E' { owned with
        nextRecord := owned.nextRecord + records.length } ∧
      ∀ record ∈ records.mapIdx fun index record =>
          ({ identity := owned.nextRecord + index, envelope := record.envelope } : EnvelopeObject),
        Made codec E' { owned with nextRecord := owned.nextRecord + records.length } record := by
  let E' : ℕ → CanonicalHistoryEnvelope := fun i =>
    if i < owned.nextRecord then E i
    else (records[i - owned.nextRecord]?.map (·.envelope)).getD (E i)
  refine ⟨E', ⟨⟨fun i text hi => ?_, fun i hi => ?_⟩, Nat.le_add_right _ _, fun i hi => if_pos hi,
    rfl, rfl, rfl, rfl⟩, fun record hrecord => ?_⟩
  · have hlt : i < owned.nextRecord := by
      by_contra hge
      have hnone := h.fresh i (by omega)
      simp [hnone] at hi
    rw [show E' i = E i from if_pos hlt]
    exact h.json i text hi
  · exact h.fresh i (by simp only at hi; omega)
  · obtain ⟨index, hindex, rfl⟩ := List.mem_mapIdx.1 hrecord
    refine ⟨by simp only; omega, ?_, hproper records[index] (List.getElem_mem hindex)⟩
    have hge : ¬ owned.nextRecord + index < owned.nextRecord := by omega
    simp [E', hindex]

/-- A copy of an array has records of its own. -/
theorem freshCopy_known {s : State} (h : Faithful codec s E A)
    (hproper : ∀ record ∈ array.records, Proper codec.isSensitiveKey record.envelope) :
    (freshCopy array s).1.records.map (·.envelope) = array.records.map (·.envelope) ∧
      ∃ E' A', Faithful codec (freshCopy array s).2 E' A' ∧
        Known codec E' A' (freshCopy array s).2.nextArray (freshCopy array s).2.owned
          (freshCopy array s).1 := by
  obtain ⟨E', hgrows, hmade⟩ := copies_grow h.records array.records hproper
  refine ⟨?_, E', Function.update A s.nextArray (freshCopy array s).1.records, ?_, Known.new hmade⟩
  · apply List.ext_getElem?
    intro index
    rw [List.getElem?_map, List.getElem?_map]
    simp only [freshCopy, List.getElem?_mapIdx]
    cases array.records[index]? <;> rfl
  · have hadvances : Advances codec E A s.nextArray s.owned E'
        (Function.update A s.nextArray (freshCopy array s).1.records)
        (freshCopy array s).2.nextArray (freshCopy array s).2.owned :=
      ⟨hgrows.kept, (h.arrays.grows hgrows).add _, fun other hother =>
        (hother.grows hgrows).add _⟩
    exact h.advances hadvances rfl rfl

theorem initialState_faithful (codec : Codec) : ∃ E A, Faithful codec initialState E A := by
  let empty : CanonicalHistoryEnvelope := {
    messageId := "", turnId := "", message := { fields := [] }
    turnConfig := none, historyArtifact := none }
  have hcache : Known codec (fun _ => empty) (fun _ => []) initialState.nextArray
      initialState.owned initialState.readCache.records :=
    ⟨by decide, rfl, by simp [initialState, Jsonl.emptyCache]⟩
  refine ⟨fun _ => empty, fun _ => [], ⟨by simp [initialState], fun _ _ => rfl⟩,
    ⟨by simp [initialState], by simp [initialState], by simp [initialState],
      fun _ _ => ⟨rfl, rfl, rfl, rfl⟩⟩, hcache, by simp [initialState], ?_⟩
  exact Jsonl.Reads.nil (envelopeReader codec)

theorem Faithful.revision {s : State} (h : Faithful codec s E A)
    (hknown : Known codec E A s.nextArray s.owned array) (active : Bool) :
    ∃ E' A', Faithful codec (historyRevision codec active array s).2 E' A' := by
  obtain ⟨-, hcache, hreturned, E', A', hadvances⟩ :=
    historyRevision_eq h.records h.arrays hknown active
  exact ⟨E', A', h.advances hadvances hcache hreturned⟩

theorem Faithful.copyKnown {s : State} (h : Faithful codec s E A) (harray : array ∈ s.returned) :
    (freshCopy array s).1.records.map (·.envelope) = array.records.map (·.envelope) ∧
      ∃ E' A', Faithful codec (freshCopy array s).2 E' A' ∧
        Known codec E' A' (freshCopy array s).2.nextArray (freshCopy array s).2.owned
          (freshCopy array s).1 :=
  freshCopy_known h fun record hrecord => ((h.returned array harray).made record hrecord).proper

theorem step_faithful {s : State} (h : ∃ E A, Faithful codec s E A) (e : Event) :
    ∃ E A, Faithful codec (step codec s e).1 E A := by
  obtain ⟨E, A, h⟩ := h
  cases e with
  | read path bytes =>
    obtain ⟨-, E', A', hfaithful, -⟩ := readEnvelopesStrict_eq h path bytes
    exact ⟨E', A', hfaithful⟩
  | readActive path bytes => exact readActiveWithBytes_faithful h path bytes
  | revision active index =>
    simp only [step]
    split
    · exact ⟨E, A, h⟩
    · rename_i array harray
      exact h.revision (h.returned array (List.mem_of_getElem? harray)) active
  | revisionOfCopy active index =>
    simp only [step]
    split
    · exact ⟨E, A, h⟩
    · rename_i array harray
      obtain ⟨-, E', A', hcopy, hknown⟩ := h.copyKnown (List.mem_of_getElem? harray)
      exact hcopy.revision hknown active

theorem after_faithful (codec : Codec) (es : List Event) :
    ∃ E A, Faithful codec ((machine codec).after initialState es) E A :=
  (machine codec).after_invariant (P := fun s => ∃ E A, Faithful codec s E A)
    (fun _ e hs _ => step_faithful hs e) (initialState_faithful codec)
    ((machine codec).along_true _ es)

end

/-- Files read one after another through a cache give what plain reads give, and in every state the
shared reader does too. The revision of an array it returned is that of a copy of its records. -/
theorem cached_history_faithful :
    (∀ (β : Type) (plain : Jsonl.LineReader β) (identity : ℕ)
        (files : List (String × List UInt8)),
      Jsonl.readAllCached plain (Jsonl.emptyCache β identity) (identity + 1) files =
        files.map fun file => Jsonl.readJsonlStrict plain file.1 file.2) ∧
    ∀ (codec : Codec) (es : List Event),
      (∀ path bytes, (readEnvelopesStrict codec path bytes
          ((machine codec).after initialState es)).1.map (·.records.map (·.envelope)) =
        Jsonl.readJsonlStrict (envelopeReader codec) path bytes) ∧
      ∀ array ∈ ((machine codec).after initialState es).returned, ∀ active,
        (historyRevision codec active array ((machine codec).after initialState es)).1 =
          (historyRevision codec active
            (freshCopy array ((machine codec).after initialState es)).1
            (freshCopy array ((machine codec).after initialState es)).2).1 := by
  refine ⟨fun β plain identity files => ?_, fun codec es => ?_⟩
  · exact Jsonl.readAllCached_faithful plain files _ _ (Jsonl.Reads.nil plain)
  obtain ⟨E, A, h⟩ := after_faithful codec es
  refine ⟨fun path bytes => (readEnvelopesStrict_eq h path bytes).1, fun array harray active => ?_⟩
  obtain ⟨hsame, E', A', hcopy, hknown⟩ := h.copyKnown harray
  rw [(historyRevision_eq h.records h.arrays (h.returned array harray) active).1,
    (historyRevision_eq hcopy.records hcopy.arrays hknown active).1, hsame]

end HistoryRevision

end Kinetick
