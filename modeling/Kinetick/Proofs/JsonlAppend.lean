import Kinetick.Proofs.JsonlLines

/-!
# An append is made whole or taken back

What an attempt leaves of its file is what was there and some of the payload after it, and the size
tells how much. So the recovery finds out what to complete or to take back.
-/

namespace Kinetick

namespace Jsonl

open FileProgram FileSystem

variable {filePath : String} {files : Files}

/-! ## Calls that leave the files -/

/-- Ends with the files as they were. -/
def Keeps {α : Type} (files : Files) (m : FileProgram α) : Prop :=
  m.Leads May (fun _ files' => files' = files) files

theorem keeps_close (path : String) : Keeps files (call (.close path)) := fun _ _ h => h

theorem keeps_sync (path : String) : Keeps files (call (.sync path)) := fun _ _ h => h

theorem keeps_read (path : String) (length position : ℕ) :
    Keeps files (call (.read path length position)) := by
  rintro (e | bytes) files' h
  · exact h
  · exact h.2

theorem keeps_ignoring {m : FileProgram Unit} (h : Keeps files m) :
    (ignoring m).Leads May (fun r files' => r = .ok () ∧ files' = files) files :=
  Async.Leads.bind_attempt h fun _ _ hfiles => ⟨rfl, hfiles⟩

theorem Keeps.bind {α β : Type} {m : FileProgram α} {f : α → FileProgram β} (h : Keeps files m)
    (hf : ∀ a, Keeps files (f a)) : Keeps files (m >>= f) := by
  refine Async.Leads.bind h (fun files' a hfiles => ?_) fun _ _ hfiles => hfiles
  rw [hfiles]
  exact hf a

theorem keeps_finally {α : Type} {m : FileProgram α} {cleanup : FileProgram Unit}
    (h : Keeps files m) (hcleanup : Keeps files cleanup) : Keeps files (finally' m cleanup) := by
  refine Async.Leads.bind_attempt h fun files' r hfiles => ?_
  rw [hfiles]
  refine hcleanup.bind fun _ => ?_
  rcases r with e | a
  · exact rfl
  · exact rfl

theorem keeps_readFrom (reads start length : ℕ) (contents : List UInt8) :
    Keeps files (readFrom filePath reads start length contents) := by
  induction reads generalizing contents with
  | zero => exact rfl
  | succ reads ih =>
    unfold readFrom
    split_ifs
    · exact rfl
    · refine (keeps_read filePath _ _).bind fun bytes => ?_
      rcases bytes with _ | ⟨byte, bytes⟩
      · exact rfl
      · exact ih _

theorem keeps_readRange (start length : ℕ) : Keeps files (readRange filePath start length) := by
  have hopen : Keeps files (call (.openFile filePath .read)) := fun _ _ h => h
  exact hopen.bind fun _ => keeps_finally (keeps_readFrom _ _ _ _) (keeps_close _)

theorem leads_syncDirectory (path : String) :
    (syncDirectoryBestEffort path).Leads May (fun r files' => r = .ok () ∧ files' = files)
      files := by
  have hopen : Keeps files (call (.openFile path .read)) := fun _ _ h => h
  refine Async.Leads.bind_attempt hopen fun files' r hfiles => ?_
  subst hfiles
  rcases r with e | ⟨⟩
  · exact ⟨rfl, rfl⟩
  · refine (keeps_ignoring (keeps_sync path)).bind (fun files'' _ h => ?_) fun _ _ h => h
    rw [h.2]
    exact keeps_ignoring (keeps_close path)

/-! ## The attempt -/

/-- The bytes of an append to the contents. -/
def payloadOf (contents serialized : List UInt8) : List UInt8 := boundary contents ++ serialized

/-- So much of the payload is written. -/
def Written (filePath : String) (contents payload : List UInt8) (count : ℕ) (files : Files) :
    Prop :=
  count ≤ payload.length ∧ files filePath = some (contents ++ payload.take count)

/-- What an attempt reports of itself and leaves of the file. -/
def Attempted (filePath : String) (contents payload : List UInt8) (attempt : AppendAttempt)
    (files : Files) : Prop :=
  match attempt.preAppendSize, attempt.payload with
  | some size, some written => size = contents.length ∧ written = payload ∧
    ∃ count, Written filePath contents payload count files ∧
      (attempt.error = none → count = payload.length)
  | _, _ => attempt.error.isSome ∧ files filePath = some contents

theorem leads_needsLineBoundary {contents : List UInt8} (h : files filePath = some contents) :
    (needsLineBoundary filePath contents.length).Leads May (fun r files' => files' = files ∧
      ∀ answer, r = .ok answer → boundary contents = if answer then [10] else []) files := by
  unfold needsLineBoundary
  rcases List.eq_nil_or_concat contents with rfl | ⟨before, last, rfl⟩
  · refine ⟨rfl, fun answer hanswer => ?_⟩
    cases hanswer
    rfl
  · rw [List.concat_eq_append] at h ⊢
    have hlen : ¬ (before ++ [last]).length = 0 := by simp
    rw [if_neg hlen]
    rintro (e | bytes) files' hdoes
    · exact ⟨hdoes, nofun⟩
    · obtain ⟨⟨contents', hcontents, hbytes⟩, rfl⟩ := hdoes
      rw [h] at hcontents
      cases hcontents
      have hlast : ((before ++ [last]).drop ((before ++ [last]).length - 1)).take 1 = [last] := by
        simp
      rw [hlast] at hbytes
      rcases bytes with _ | ⟨byte, _ | ⟨byte', bytes⟩⟩
      · exact ⟨rfl, nofun⟩
      · obtain ⟨rest, hrest⟩ := hbytes
        cases hrest
        refine ⟨rfl, fun answer hanswer => ?_⟩
        cases hanswer
        unfold boundary
        by_cases hfeed : last = 10 <;> simp [hfeed]
      · exact ⟨rfl, nofun⟩

theorem leads_write {contents payload : List UInt8} (h : files filePath = some contents) :
    (call (.write filePath payload)).Leads May (fun r files' =>
      ∃ count, Written filePath contents payload count files' ∧
        ∀ n, r = .ok n → n = count) files := by
  rintro (e | n) files' hdoes
  · obtain ⟨contents', count, hcontents, hcount, rfl⟩ := hdoes
    rw [h] at hcontents
    cases hcontents
    exact ⟨count, ⟨hcount, by simp⟩, nofun⟩
  · obtain ⟨contents', hcontents, hcount, rfl⟩ := hdoes
    rw [h] at hcontents
    cases hcontents
    refine ⟨n, ⟨hcount, by simp⟩, ?_⟩
    rintro n' hn'
    cases hn'
    rfl

theorem leads_attemptAppend {contents : List UInt8} (h : files filePath = some contents)
    (serialized : List UInt8) :
    (attemptAppend filePath serialized).Leads May (fun r files' => ∃ attempt, r = .ok attempt ∧
      Attempted filePath contents (payloadOf contents serialized) attempt files') files := by
  have hstat : (call (.handleStat filePath)).Leads May (fun r files' => files' = files ∧
      ∀ size, r = .ok size → size = contents.length) files := by
    rintro (e | size) files' hdoes
    · exact ⟨hdoes, nofun⟩
    · refine ⟨hdoes.2, ?_⟩
      rintro size' hsize'
      cases hsize'
      have hlen := hdoes.1
      rw [h] at hlen
      exact (Option.some.inj hlen).symm
  refine Async.Leads.bind_attempt hstat ?_
  rintro files' (e | size) ⟨rfl, hsize⟩
  · exact ⟨_, rfl, rfl, h⟩
  cases hsize size rfl
  refine Async.Leads.bind_attempt (leads_needsLineBoundary h) ?_
  rintro files' (e | answer) ⟨rfl, hanswer⟩
  · exact ⟨_, rfl, rfl, h⟩
  have hpayload : (if answer then 10 :: serialized else serialized) =
      payloadOf contents serialized := by
    unfold payloadOf
    rw [hanswer answer rfl]
    cases answer <;> rfl
  dsimp only
  rw [hpayload]
  refine Async.Leads.bind_attempt (Q := fun r files'' => ∃ count,
    Written filePath contents (payloadOf contents serialized) count files'' ∧
      (r = .ok () → count = (payloadOf contents serialized).length)) ?_ ?_
  · refine (leads_write h).bind ?_ ?_
    · rintro files₁ n ⟨count, hwritten, hn⟩
      cases hn n rfl
      split_ifs with hshort
      · exact ⟨_, hwritten, nofun⟩
      · rintro (e | ⟨⟩) files₂ rfl
        · exact ⟨_, hwritten, nofun⟩
        · exact ⟨_, hwritten, fun _ => by simpa using hshort⟩
    · rintro files₁ e ⟨count, hwritten, -⟩
      exact ⟨count, hwritten, nofun⟩
  · rintro files₁ (e | ⟨⟩) ⟨count, hwritten, hcount⟩
    · exact ⟨_, rfl, rfl, rfl, count, hwritten, nofun⟩
    · exact ⟨_, rfl, rfl, rfl, count, hwritten, fun _ => hcount rfl⟩

/-! ## Recovery -/

/-- Where a recovery ends: all is written, nothing is, or it is uncertain. -/
def Recovered (filePath : String) (contents payload : List UInt8) (r : Except Thrown Bool)
    (files : Files) : Prop :=
  match r with
  | .ok true => files filePath = some (contents ++ payload)
  | .ok false => files filePath = some contents
  | .error e => e.isUncertain = true

theorem leads_fileSize {contents : List UInt8} (h : files filePath = some contents)
    (preAppendSize : ℕ) :
    (fileSizeAfterFailure filePath preAppendSize).Leads May (fun r files' => files' = files ∧
      ∀ size, r = .ok size → size = contents.length) files := by
  have hstat : (call (.stat filePath)).Leads May (fun r files' => files' = files ∧
      (∀ size, r = .ok size → size = contents.length) ∧
      ∀ error, r = .error (.io error) → error.code ≠ "ENOENT") files := by
    rintro (e | size) files' hdoes
    · refine ⟨hdoes.2, nofun, ?_⟩
      rintro error herror hcode
      cases herror
      rw [hdoes.1 hcode] at h
      cases h
    · refine ⟨hdoes.2, ?_, nofun⟩
      rintro size' hsize'
      cases hsize'
      have hlen := hdoes.1
      rw [h] at hlen
      exact (Option.some.inj hlen).symm
  refine Async.Leads.bind_attempt hstat ?_
  rintro files' ((error | message | ⟨path, cause⟩) | size) ⟨rfl, hsize, hcode⟩
  · dsimp only
    rw [if_neg fun hboth => hcode error rfl hboth.2]
    exact ⟨rfl, nofun⟩
  · exact ⟨rfl, nofun⟩
  · exact ⟨rfl, nofun⟩
  · exact ⟨rfl, hsize⟩

/-- What was truncated, where it succeeds. -/
theorem leads_truncateAndSync {contents : List UInt8} (h : files filePath = some contents)
    (size : Option ℕ) :
    (truncateAndSync filePath size).Leads May (fun r files' => r = .ok () →
      files' filePath = some (contents.take (size.getD contents.length))) files := by
  have hopen : Keeps files (call (.openFile filePath .update)) := fun _ _ h => h
  have hclose : ∀ {files₁ : Files}, Keeps files₁ (call (.close filePath)) := keeps_close _
  have hsync : ∀ {files₁ : Files}, Keeps files₁ (call (.sync filePath)) := keeps_sync _
  have htruncated : (truncateOpened filePath size).Leads May (fun r files' => r = .ok () →
      files' filePath = some (contents.take (size.getD contents.length))) files := by
    rcases size with _ | size
    · refine Async.Leads.mono ?_ hsync
      rintro r files' rfl -
      rw [Option.getD_none, List.take_length]
      exact h
    · refine Async.Leads.bind (Q := fun r files' => r = .ok () →
        files' filePath = some (contents.take size)) ?_ ?_ fun _ _ _ => nofun
      · rintro (e | ⟨⟩) files' hdoes
        · exact nofun
        · obtain ⟨contents', hcontents, rfl⟩ := hdoes
          rw [h] at hcontents
          cases hcontents
          exact fun _ => Function.update_self _ _ _
      · rintro files' ⟨⟩ htake
        refine Async.Leads.mono ?_ hsync
        rintro r files₁ rfl -
        exact htake rfl
  refine Async.Leads.bind hopen ?_ fun _ _ _ => nofun
  rintro files' ⟨⟩ rfl
  refine Async.Leads.bind_attempt htruncated ?_
  rintro files₁ r htake
  refine Async.Leads.bind hclose ?_ fun _ _ _ => nofun
  rintro files₂ ⟨⟩ rfl
  rcases r with e | ⟨⟩
  · exact nofun
  · exact htake

theorem leads_completeOrTakeBack {contents payload : List UInt8} {count : ℕ}
    (h : Written filePath contents payload count files) :
    (completeOrTakeBack filePath contents.length payload).Leads May (fun r files' =>
      (r = .ok true → files' filePath = some (contents ++ payload)) ∧
        (r = .ok false → files' filePath = some contents)) files := by
  obtain ⟨hcount, hfiles⟩ := h
  refine (leads_fileSize hfiles _).bind ?_ ?_
  · rintro files' size ⟨rfl, hsize⟩
    cases hsize size rfl
    have hlen : (contents ++ payload.take count).length = contents.length + count := by
      rw [List.length_append, List.length_take]
      omega
    rw [hlen, Nat.add_sub_cancel_left]
    split_ifs with hzero hrange
    · have hcount : count = 0 := by omega
      subst hcount
      exact ⟨nofun, fun _ => by simpa using hfiles⟩
    · exact ⟨nofun, nofun⟩
    · refine Async.Leads.bind (keeps_readRange _ _) ?_ ?_
      · rintro files₁ written hfiles₁
        subst hfiles₁
        split_ifs with hbytes hwhole
        · exact ⟨nofun, nofun⟩
        · refine (leads_truncateAndSync hfiles none).bind ?_ fun _ _ _ => ⟨nofun, nofun⟩
          rintro files₂ ⟨⟩ hfiles₂
          refine ⟨fun _ => ?_, nofun⟩
          rw [hfiles₂ rfl, Option.getD_none, List.take_length, hwhole, List.take_length]
        · refine (leads_truncateAndSync hfiles (some contents.length)).bind ?_
            fun _ _ _ => ⟨nofun, nofun⟩
          rintro files₂ ⟨⟩ hfiles₂
          refine ⟨nofun, fun _ => ?_⟩
          rw [hfiles₂ rfl, Option.getD_some, List.take_left]
      · exact fun _ _ _ => ⟨nofun, nofun⟩
  · exact fun _ _ _ => ⟨nofun, nofun⟩

theorem leads_recoverFailedAppend {contents payload : List UInt8} {count : ℕ}
    (h : Written filePath contents payload count files) :
    (recoverFailedAppend filePath contents.length payload).Leads May
      (Recovered filePath contents payload) files := by
  refine Async.Leads.bind_attempt (leads_completeOrTakeBack h) ?_
  rintro files' (e | committed) ⟨htrue, hfalse⟩
  · exact rfl
  · cases committed
    · exact hfalse rfl
    · exact htrue rfl

/-- Where an append ends: all of the payload is in the file, or none, or it is uncertain. -/
def Settled (filePath : String) (contents payload : List UInt8) (r : Except Thrown Unit)
    (files : Files) : Prop :=
  match r with
  | .ok () => files filePath = some (contents ++ payload)
  | .error e => e.isUncertain = true ∨ files filePath = some contents

theorem leads_recoverAppendFailure {contents payload : List UInt8} {attempt : AppendAttempt}
    (h : Attempted filePath contents payload attempt files) (error : Thrown) :
    (recoverAppendFailure filePath attempt error).Leads May (Settled filePath contents payload)
      files := by
  unfold Attempted at h
  unfold recoverAppendFailure
  rcases hsize : attempt.preAppendSize with _ | size <;>
    rcases hpayload : attempt.payload with _ | written <;> rw [hsize, hpayload] at h
  · exact .inr h.2
  · exact .inr h.2
  · exact .inr h.2
  · obtain ⟨rfl, rfl, count, hwritten, -⟩ := h
    refine (leads_recoverFailedAppend hwritten).bind ?_ ?_
    · rintro files' (_ | _) hrecovered
      · exact .inr hrecovered
      · exact hrecovered
    · exact fun files' e huncertain => .inl huncertain

theorem leads_closeAndRecoverAppend {contents payload : List UInt8} {attempt : AppendAttempt}
    (h : Attempted filePath contents payload attempt files) :
    (closeAndRecoverAppend filePath attempt).Leads May (Settled filePath contents payload)
      files := by
  refine Async.Leads.bind_attempt (keeps_close filePath) ?_
  rintro files' (e | ⟨⟩) rfl
  · refine Async.Leads.bind (keeps_ignoring (keeps_close filePath)) ?_ fun _ _ h => nomatch h.1
    rintro files₁ ⟨⟩ ⟨-, rfl⟩
    exact leads_recoverAppendFailure h _
  · rcases herror : attempt.error with _ | error
    · unfold Attempted at h
      rcases hsize : attempt.preAppendSize with _ | size <;>
        rcases hpayload : attempt.payload with _ | written <;> rw [hsize, hpayload, herror] at h
      · cases h.1
      · cases h.1
      · cases h.1
      · obtain ⟨rfl, rfl, count, hwritten, hcount⟩ := h
        rw [hcount rfl] at hwritten
        have hwhole := hwritten.2
        rw [List.take_length] at hwhole
        exact hwhole
    · exact leads_recoverAppendFailure h _

/-! ## Appends -/

/-- A file that is there is opened, unless that fails. -/
theorem leads_openOrPublish {contents : List UInt8} (h : files filePath = some contents)
    (stagingPath : String) (serialized : List UInt8) (rounds : ℕ) :
    (openOrPublish filePath stagingPath serialized rounds).Leads May (fun r files' =>
      files' = files ∧ ∀ opened, r = .ok opened → opened = true) files := by
  cases rounds with
  | zero => exact ⟨rfl, nofun⟩
  | succ rounds =>
    have hopen : (openExistingAppendTarget filePath).Leads May (fun r files' => files' = files ∧
        ∀ target, r = .ok target → target = some ()) files := by
      refine Async.Leads.bind_attempt (Q := fun r files' => files' = files ∧
        (∀ error, r = .error (.io error) → error.code ≠ "ENOENT")) ?_ ?_
      · rintro (e | ⟨⟩) files' hdoes
        · refine ⟨hdoes.2, ?_⟩
          rintro error herror hcode
          cases herror
          rw [hdoes.1 hcode] at h
          cases h
        · exact ⟨hdoes.2, nofun⟩
      · rintro files' ((error | message | ⟨path, cause⟩) | ⟨⟩) ⟨rfl, hcode⟩
        · dsimp only
          rw [if_neg (hcode error rfl)]
          exact ⟨rfl, nofun⟩
        · exact ⟨rfl, nofun⟩
        · exact ⟨rfl, nofun⟩
        · refine ⟨rfl, ?_⟩
          rintro target htarget
          cases htarget
          rfl
    refine hopen.bind ?_ fun _ _ h => ⟨h.1, nofun⟩
    rintro files' target ⟨rfl, htarget⟩
    cases htarget target rfl
    refine ⟨rfl, ?_⟩
    rintro opened hopened
    cases hopened
    rfl

theorem leads_appendSerialized {contents : List UInt8} (h : files filePath = some contents)
    (parentPath stagingPath : String) (rounds : ℕ) (serialized : List UInt8) :
    (do
      call (.mkdir parentPath)
      if ← openOrPublish filePath stagingPath serialized rounds then
        let attempt ← attemptAppend filePath serialized
        closeAndRecoverAppend filePath attempt
      syncDirectoryBestEffort parentPath : FileProgram Unit).Leads May
      (Settled filePath contents (payloadOf contents serialized)) files := by
  have hmkdir : Keeps files (call (.mkdir parentPath)) := fun _ _ h => h
  refine Async.Leads.bind hmkdir ?_ fun _ _ hfiles => .inr (hfiles ▸ h)
  rintro files' ⟨⟩ rfl
  refine (leads_openOrPublish h stagingPath serialized rounds).bind ?_ fun _ _ hfiles =>
    .inr (hfiles.1 ▸ h)
  rintro files' opened ⟨rfl, hopened⟩
  cases hopened opened rfl
  simp only [if_true]
  refine (leads_attemptAppend h serialized).bind ?_ fun _ _ h => nomatch h
  rintro files₁ attempt ⟨attempt', hattempt, hattempted⟩
  cases hattempt
  refine (leads_closeAndRecoverAppend hattempted).bind ?_ fun _ _ hsettled => hsettled
  rintro files₂ ⟨⟩ hsettled
  refine (leads_syncDirectory parentPath).mono ?_
  rintro r files₃ ⟨rfl, rfl⟩
  exact hsettled

/-- An append leaves a file with one more line for each record, which a tolerant reader reads after
all it read before; or it throws and leaves the file as it was, or says that it is uncertain. -/
theorem appendJsonl_atomic (format : NumberFormat) {contents : List UInt8}
    (h : files filePath = some contents) (parentPath stagingPath : String) (rounds : ℕ)
    (records : List JsValue) :
    (appendJsonl format filePath parentPath stagingPath rounds records).Leads May
      (fun r files' => (r = .ok () → ∃ contents', files' filePath = some contents' ∧
          Appended format records contents contents' ∧
          ∀ {α : Type} (reader : LineReader α) (path : String) (answers : List α),
            List.Forall₂ (Accepts format reader) records answers →
            (readJsonl reader path contents').1 = (readJsonl reader path contents).1 ++ answers) ∧
        ∀ e, r = .error e → e.isUncertain = false → files' filePath = some contents) files := by
  unfold appendJsonl
  rcases hserialized : serializeRecords format records with message | serialized
  · exact ⟨nofun, fun _ _ _ => h⟩
  obtain ⟨lines, hlines, rfl⟩ := serializeRecords_ok hserialized
  dsimp only
  rw [endedLines_isEmpty]
  have hsame : lines.isEmpty = records.isEmpty := by cases hlines <;> rfl
  rw [hsame]
  split_ifs with hempty
  · refine ⟨fun _ => ⟨contents, h, ⟨lines, hlines, by rw [if_pos hempty]⟩, ?_⟩, nofun⟩
    intro α reader path answers haccepts
    rw [List.isEmpty_iff.1 hempty] at haccepts
    cases haccepts
    rw [List.append_nil]
  · refine (leads_appendSerialized h parentPath stagingPath rounds (endedLines lines)).mono ?_
    rintro (e | ⟨⟩) files' hsettled
    · refine ⟨nofun, ?_⟩
      rintro e' he' hcertain
      cases he'
      rcases hsettled with huncertain | hfile
      · rw [hcertain] at huncertain
        cases huncertain
      · exact hfile
    · have hfile : files' filePath = some (contents ++ boundary contents ++ endedLines lines) := by
        have hfile : files' filePath = some (contents ++ payloadOf contents (endedLines lines)) :=
          hsettled
        rw [hfile, payloadOf, List.append_assoc]
      refine ⟨fun _ => ⟨_, hfile, ⟨lines, hlines, by rw [if_neg hempty]⟩, ?_⟩, nofun⟩
      exact fun reader path answers haccepts => readJsonl_appended haccepts hlines contents

section Run

/-- Of the numbers in the runs here, the text. -/
def zeroFormat : NumberFormat where
  text _ := "0"
  chars _ c hc := by
    rw [List.mem_singleton.1 hc]
    exact List.mem_cons_self
  nonempty _ := by decide

/-- A torn line. -/
def tornFile : Files := Function.update (fun _ => none) "messages.jsonl" (some [34, 120])

/-- A reader of the text `"ab"`. -/
def abReader : LineReader JsValue where
  parse line := if line = "\"ab\"" then some (.string "ab") else none
  decode := .ok

theorem appendJsonl_atomic_tornFile :
    (appendJsonl zeroFormat "messages.jsonl" "." "staging" 1 [.string "ab"]).Leads May
      (fun r files' => r = .ok () →
        files' "messages.jsonl" = some [34, 120, 10, 34, 97, 98, 34, 10] ∧
          (readJsonl abReader "messages.jsonl" [34, 120, 10, 34, 97, 98, 34, 10]).1 =
            (readJsonl abReader "messages.jsonl" [34, 120]).1 ++ [.string "ab"]) tornFile := by
  have hfile : tornFile "messages.jsonl" = some [34, 120] := rfl
  have haccepts : Accepts zeroFormat abReader (.string "ab") (.string "ab") := by
    refine ⟨fun text htext => ?_, rfl⟩
    cases htext
    rfl
  refine (appendJsonl_atomic zeroFormat hfile "." "staging" 1 [.string "ab"]).mono ?_
  rintro r files' ⟨hok, -⟩ hr
  obtain ⟨contents', hcontents, ⟨lines, hlines, rfl⟩, hread⟩ := hok hr
  have hread := hread abReader "messages.jsonl" [.string "ab"] (.cons haccepts .nil)
  rcases hlines with _ | ⟨hline, hlines⟩
  cases hlines
  cases hline
  exact ⟨hcontents, hread⟩

/-- Without records a line that is not ended stays so. -/
theorem appendJsonl_not_as_claimed : ¬ ∀ (format : NumberFormat) (files : Files)
    (contents : List UInt8) (records : List JsValue), files "messages.jsonl" = some contents →
    (appendJsonl format "messages.jsonl" "." "staging" 1 records).Leads May
      (fun r files' => r = .ok () → ∃ lines,
        List.Forall₂ (fun record line => stringify format record = some line) records lines ∧
          files' "messages.jsonl" = some (contents ++ boundary contents ++ endedLines lines))
      files := by
  intro h
  obtain ⟨lines, hlines, hfile⟩ := h zeroFormat tornFile [34, 120] [] rfl rfl
  cases hlines
  revert hfile
  decide

end Run

end Jsonl

end Kinetick
