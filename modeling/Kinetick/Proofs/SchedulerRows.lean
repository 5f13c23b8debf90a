import Mathlib.Data.List.Nodup
import Mathlib.Tactic.SplitIfs
import Kinetick.Scheduler.Scheduler

/-!
# Jobs and their rows

A job whose schedule is normalized is read back from its row as it was. An update changes the row
of one job and leaves the others, so the rows are as a table from ids to jobs.
-/

namespace Kinetick

namespace Scheduler

/-! ## Schedules read back -/

/-- What `normalizeSchedule` makes of a schedule. -/
def Schedule.Normal : Schedule → Prop
  | .once runAtMs => runAtMs.natAbs ≤ 9007199254740991
  | .cron expression timezone maxRuns =>
    jsTrim expression ≠ "" ∧ (∀ zone, timezone = some zone → jsTrim zone ≠ "") ∧
      ∀ m, maxRuns = some m → 0 < m ∧ m ≤ 9007199254740991

theorem safeInteger_bound {value : JsValue} {n : ℤ} (h : value.safeInteger = some n) :
    n.natAbs ≤ 9007199254740991 := by
  cases value with
  | number value =>
    cases value with
    | finite q =>
      simp only [JsValue.safeInteger] at h
      split_ifs at h with hq
      simp only [Option.some.injEq] at h
      subst h
      exact hq.2
    | _ => simp [JsValue.safeInteger] at h
  | _ => simp [JsValue.safeInteger] at h

theorem safeInteger_int {n : ℤ} (h : n.natAbs ≤ 9007199254740991) :
    (JsValue.number (.finite n)).safeInteger = some n := by
  simp [JsValue.safeInteger, h]

theorem normalizeOnce_normal {json : JsValue} {now : ℤ} {allowPast : Bool} {schedule : Schedule}
    (h : normalizeOnce json now allowPast = .ok schedule) : schedule.Normal := by
  simp only [normalizeOnce] at h
  split at h
  · simp at h
  · rename_i runAtMs hrun
    split_ifs at h
    simp only [Except.ok.injEq] at h
    subst h
    exact safeInteger_bound hrun

theorem readCronExpression_normal {value : JsValue} {expression : String}
    (h : readCronExpression value = .ok expression) : jsTrim expression ≠ "" := by
  cases value with
  | string text =>
    simp only [readCronExpression] at h
    split_ifs at h with htext
    simp only [Except.ok.injEq] at h
    exact h ▸ htext
  | _ => simp [readCronExpression] at h

theorem readCronTimezone_normal {value : JsValue} {timezone : Option String}
    (h : readCronTimezone value = .ok timezone) (zone : String) (hzone : timezone = some zone) :
    jsTrim zone ≠ "" := by
  cases value with
  | string text =>
    simp only [readCronTimezone] at h
    split_ifs at h with htext
    simp only [Except.ok.injEq] at h
    rw [hzone, Option.some.injEq] at h
    exact h ▸ htext
  | undefined => simp [readCronTimezone, hzone] at h
  | _ => simp [readCronTimezone] at h

theorem readCronMaxRuns_normal {value : JsValue} {maxRuns : Option ℕ}
    (h : readCronMaxRuns value = .ok maxRuns) (m : ℕ) (hm : maxRuns = some m) :
    0 < m ∧ m ≤ 9007199254740991 := by
  simp only [readCronMaxRuns] at h
  split_ifs at h
  · simp [hm] at h
  · split at h
    · simp at h
    · rename_i n hn
      split_ifs at h with hpos
      have hbound := safeInteger_bound hn
      simp only [hm, Except.ok.injEq, Option.some.injEq] at h
      omega

theorem normalizeCronSchedule_normal {json : JsValue} {schedule : Schedule}
    (h : normalizeCronSchedule json = .ok schedule) : schedule.Normal := by
  simp only [normalizeCronSchedule] at h
  cases hexpression : readCronExpression (json.get "expression") with
  | error e => simp [hexpression, bind, Except.bind] at h
  | ok expression =>
  cases htimezone : readCronTimezone (json.get "timezone") with
  | error e => simp [hexpression, htimezone, bind, Except.bind] at h
  | ok timezone =>
  cases hmax : readCronMaxRuns (json.get "maxRuns") with
  | error e => simp [hexpression, htimezone, hmax, bind, Except.bind] at h
  | ok maxRuns =>
    simp only [hexpression, htimezone, hmax, bind, Except.bind, pure, Except.pure,
      Except.ok.injEq] at h
    subst h
    exact ⟨readCronExpression_normal hexpression, readCronTimezone_normal htimezone,
      readCronMaxRuns_normal hmax⟩

theorem normalizeSchedule_normal {json : JsValue} {now : ℤ} {allowPast : Bool}
    {schedule : Schedule} (h : normalizeSchedule json now allowPast = .ok schedule) :
    schedule.Normal := by
  simp only [normalizeSchedule] at h
  split_ifs at h
  · exact normalizeOnce_normal h
  · exact normalizeCronSchedule_normal h

/-- A normalized schedule is read back from its object. -/
theorem normalizeSchedule_toJson {schedule : Schedule} (h : schedule.Normal) (now : ℤ) :
    normalizeSchedule schedule.toJson now true = .ok schedule := by
  cases schedule with
  | once runAtMs =>
    have hsafe := safeInteger_int h
    simp [normalizeSchedule, Schedule.toJson, isRecord, JsValue.get, JsValue.lookup,
      JsValue.isText, normalizeOnce, JsValue.isUndefined, hsafe]
  | cron expression timezone maxRuns =>
    obtain ⟨hexpression, htimezone, hmax⟩ := h
    have hzone : readCronTimezone ((Schedule.cron expression timezone maxRuns).toJson.get
        "timezone") = .ok timezone := by
      cases timezone with
      | none => cases maxRuns <;> rfl
      | some zone =>
        have := htimezone zone rfl
        simp [Schedule.toJson, JsValue.get, JsValue.lookup, JsValue.isUndefined,
          readCronTimezone, this]
    have hruns : readCronMaxRuns ((Schedule.cron expression timezone maxRuns).toJson.get
        "maxRuns") = .ok maxRuns := by
      cases maxRuns with
      | none => cases timezone <;> rfl
      | some m =>
        obtain ⟨hpos, hbound⟩ := hmax m rfl
        have hsafe := safeInteger_int (n := m) (by omega)
        have hget : (Schedule.cron expression timezone (some m)).toJson.get "maxRuns" =
            .number (.finite ((m : ℤ) : ℚ)) := by
          cases timezone <;> simp [Schedule.toJson, JsValue.get, JsValue.lookup,
            JsValue.isUndefined]
        rw [hget, readCronMaxRuns, hsafe]
        have hzero : m ≠ 0 := by omega
        simp [JsValue.isUndefined, hzero]
    have hread : normalizeCronSchedule (Schedule.cron expression timezone maxRuns).toJson =
        .ok (.cron expression timezone maxRuns) := by
      rw [normalizeCronSchedule, hzone, hruns]
      simp [Schedule.toJson, JsValue.get, JsValue.lookup, JsValue.isUndefined,
        readCronExpression, hexpression, bind, Except.bind, pure, Except.pure]
    rw [normalizeSchedule]
    have hkind : (Schedule.cron expression timezone maxRuns).toJson.get "kind" =
        .string "cron" := by
      simp [Schedule.toJson, JsValue.get, JsValue.lookup, JsValue.isUndefined]
    simp [hkind, hread, JsValue.isText]
    simp [Schedule.toJson, isRecord]

theorem toJson_injective : Function.Injective Schedule.toJson := by
  rintro (a | ⟨expression, timezone, maxRuns⟩) (b | ⟨expression', timezone', maxRuns'⟩) h
  · simpa [Schedule.toJson] using h
  · simp [Schedule.toJson] at h
  · simp [Schedule.toJson] at h
  · rcases timezone with _ | zone <;> rcases timezone' with _ | zone' <;>
      rcases maxRuns with _ | m <;> rcases maxRuns' with _ | m' <;> simp_all [Schedule.toJson]

theorem jobRow_injective : Function.Injective jobRow := by
  rintro ⟨_, _, schedule, _, _, _, _, _, _⟩ ⟨_, _, schedule', _, _, _, _, _, _⟩ h
  simp only [jobRow, JobRow.mk.injEq] at h
  obtain ⟨rfl, rfl, hschedule, rfl, rfl, rfl, rfl, rfl, rfl⟩ := h
  rw [toJson_injective hschedule]

/-! ## Rows by id -/

/-- The row of the id. -/
def rowIn (rows : List JobRow) (id : String) : Option JobRow :=
  rows.find? (·.schedulerId = id)

theorem mem_of_rowIn {rows : List JobRow} {id : String} {row : JobRow}
    (h : rowIn rows id = some row) : row ∈ rows ∧ row.schedulerId = id := by
  rw [rowIn] at h
  exact ⟨List.mem_of_find?_eq_some h, by simpa using List.find?_some h⟩

theorem rowIn_of_mem {rows : List JobRow} (hdistinct : (rows.map (·.schedulerId)).Nodup)
    {row : JobRow} (h : row ∈ rows) : rowIn rows row.schedulerId = some row := by
  induction rows with
  | nil => simp at h
  | cons first rows ih =>
    simp only [List.map_cons, List.nodup_cons] at hdistinct
    rcases List.mem_cons.1 h with rfl | hmem
    · simp [rowIn]
    · have hne : first.schedulerId ≠ row.schedulerId := fun heq =>
        hdistinct.1 (heq ▸ List.mem_map_of_mem hmem)
      have := ih hdistinct.2 hmem
      simpa [rowIn, hne] using this

theorem rowIn_map {f : JobRow → JobRow} (hf : ∀ row, (f row).schedulerId = row.schedulerId)
    (rows : List JobRow) (id : String) : rowIn (rows.map f) id = (rowIn rows id).map f := by
  simp only [rowIn, List.find?_map]
  congr 2
  funext row
  simp [hf]

/-- What an update makes of each row. -/
def updatedBy (record : JobRecord) (row : JobRow) : JobRow :=
  if row.schedulerId = record.schedulerId then row.updated record else row

@[simp] theorem updatedBy_schedulerId (record : JobRecord) (row : JobRow) :
    (updatedBy record row).schedulerId = row.schedulerId := by
  simp only [updatedBy]
  split_ifs <;> rfl

theorem updateJob_ok {fails : Bool} {rows rows' : List JobRow} {record : JobRecord}
    (h : updateJob fails rows record = .ok rows') : rows' = rows.map (updatedBy record) := by
  simp only [updateJob] at h
  split_ifs at h
  simp only [Except.ok.injEq] at h
  exact h.symm

/-- An update leaves the rows of the other jobs. -/
theorem rowIn_updateJob_ne {fails : Bool} {rows rows' : List JobRow} {record : JobRecord}
    (h : updateJob fails rows record = .ok rows') {id : String} (hne : id ≠ record.schedulerId) :
    rowIn rows' id = rowIn rows id := by
  rw [updateJob_ok h, rowIn_map (updatedBy_schedulerId record)]
  cases hrow : rowIn rows id with
  | none => rfl
  | some row =>
    have hid := (mem_of_rowIn hrow).2
    simp [updatedBy, hid, hne]

/-- The row of the job is the job, where the update keeps what it does not set. -/
theorem rowIn_updateJob {fails : Bool} {rows rows' : List JobRow} {record stored : JobRecord}
    (h : updateJob fails rows record = .ok rows')
    (hrow : rowIn rows record.schedulerId = some (jobRow stored))
    (hhandler : record.handlerKey = stored.handlerKey)
    (hcreated : record.createdAtMs = stored.createdAtMs) :
    rowIn rows' record.schedulerId = some (jobRow record) := by
  have hid := (mem_of_rowIn hrow).2
  rw [updateJob_ok h, rowIn_map (updatedBy_schedulerId record), hrow]
  simp only [jobRow] at hid
  simp [updatedBy, JobRow.updated, jobRow, hid, hhandler, hcreated]

theorem insertJob_ok {fails : Bool} {rows rows' : List JobRow} {record : JobRecord}
    (h : insertJob fails rows record = .ok rows') :
    rows' = rows ++ [jobRow record] ∧ ∀ row ∈ rows, row.schedulerId ≠ record.schedulerId := by
  simp only [insertJob] at h
  split_ifs at h with hfresh
  simp only [Except.ok.injEq] at h
  refine ⟨h.symm, fun row hrow heq => hfresh ?_⟩
  simp only [Bool.or_eq_true, List.any_eq_true, decide_eq_true_eq]
  exact Or.inr ⟨row, hrow, heq⟩

theorem rowIn_append (rows : List JobRow) (record : JobRecord) (id : String) :
    rowIn (rows ++ [jobRow record]) id =
      (rowIn rows id).or (if record.schedulerId = id then some (jobRow record) else none) := by
  simp only [rowIn, List.find?_append, List.find?_singleton]
  by_cases hid : record.schedulerId = id <;> simp [jobRow, hid]

theorem rowIn_remove_ne {rows : List JobRow} {id removed : String} (hne : id ≠ removed) :
    rowIn (rows.filter (·.schedulerId ≠ removed)) id = rowIn rows id := by
  simp only [rowIn, List.find?_filter]
  congr 1
  funext row
  by_cases hrow : row.schedulerId = id
  · simp [hrow, hne]
  · simp [hrow]

theorem rowIn_remove (rows : List JobRow) (removed : String) :
    rowIn (rows.filter (·.schedulerId ≠ removed)) removed = none := by
  simp [rowIn]

/-! ## What is stored -/

/-- A job that can be read back and does not run beyond its limit. -/
structure Valid (record : JobRecord) : Prop where
  schedule : record.schedule.Normal
  nextRun : ∀ ms, record.nextRunAtMs = some ms → isSafe ms = true
  limited : ∀ m, limit record.schedule = some m →
    record.runCount ≤ m ∧ (record.state = .active → record.runCount < m)

theorem parseJobRow_jobRow {record parsed : JobRecord} {now : ℤ} (hvalid : Valid record)
    (h : parseJobRow (jobRow record) now = some parsed) : parsed = record := by
  have hread := normalizeSchedule_toJson hvalid.schedule now
  have hnext : record.nextRunAtMs.filter isSafe = record.nextRunAtMs := by
    cases hms : record.nextRunAtMs with
    | none => rfl
    | some ms => exact Option.filter_eq_some_iff.2 ⟨rfl, hvalid.nextRun ms hms⟩
  simp only [parseJobRow] at h
  split_ifs at h
  simp only [jobRow, hread, hnext, Option.some.injEq] at h
  exact h.symm

/-- The job of a row: its calls were in earlier generations, or they are counted. -/
structure JobStored (calls : List Invocation) (id : String) (record : JobRecord) : Prop where
  schedulerId : record.schedulerId = id
  valid : Valid record
  generations : ∀ call ∈ calls, call.record.schedulerId = id →
    call.record.scheduleGeneration < record.scheduleGeneration ∨
      call.record.scheduleGeneration = record.scheduleGeneration ∧
        call.record.schedule = record.schedule
  counted : ∀ m, limit record.schedule = some m →
    callsOf id record.scheduleGeneration calls ≤ record.runCount

/-- The rows and the calls so far, with the number of ids that were made. -/
structure Stored (source : UuidSource) (rows : List JobRow) (issued : ℕ)
    (calls : List Invocation) : Prop where
  distinct : (rows.map (·.schedulerId)).Nodup
  jobs : ∀ id row, rowIn rows id = some row →
    ∃ record, row = jobRow record ∧ JobStored calls id record
  rowIssued : ∀ id row, rowIn rows id = some row → ∃ n < issued, id = source.uuid n
  callIssued : ∀ call ∈ calls, ∃ n < issued, call.record.schedulerId = source.uuid n
  within : WithinLimit calls

theorem callsOf_append (id : String) (generation : ℕ) (calls later : List Invocation) :
    callsOf id generation (calls ++ later) =
      callsOf id generation calls + callsOf id generation later := by
  simp [callsOf, List.countP_append]

theorem callsOf_eq_zero {id : String} {generation : ℕ} {calls : List Invocation}
    (h : ∀ call ∈ calls, call.record.schedulerId = id →
      call.record.scheduleGeneration ≠ generation) : callsOf id generation calls = 0 := by
  simp only [callsOf, List.countP_eq_zero, Bool.and_eq_true, decide_eq_true_eq, not_and]
  exact h

variable {source : UuidSource} {rows rows' : List JobRow} {issued : ℕ} {calls : List Invocation}

theorem Stored.initial (source : UuidSource) : Stored source [] 0 [] where
  distinct := List.nodup_nil
  jobs := by simp [rowIn]
  rowIssued := by simp [rowIn]
  callIssued := by simp
  within := by simp [WithinLimit]

theorem Stored.jobStored (h : Stored source rows issued calls) {id : String} {record : JobRecord}
    (hrow : rowIn rows id = some (jobRow record)) : JobStored calls id record := by
  obtain ⟨record', heq, hstored⟩ := h.jobs id _ hrow
  exact jobRow_injective heq ▸ hstored

theorem Stored.issue (h : Stored source rows issued calls) :
    Stored source rows (issued + 1) calls where
  distinct := h.distinct
  jobs := h.jobs
  rowIssued id row hrow := by
    obtain ⟨n, hn, hid⟩ := h.rowIssued id row hrow
    exact ⟨n, by omega, hid⟩
  callIssued call hcall := by
    obtain ⟨n, hn, hid⟩ := h.callIssued call hcall
    exact ⟨n, by omega, hid⟩
  within := h.within

/-- A job under a new id. -/
theorem Stored.insert (h : Stored source rows issued calls) {fails : Bool} {record : JobRecord}
    (hid : record.schedulerId = source.uuid issued) (hvalid : Valid record)
    (hrows : insertJob fails rows record = .ok rows') :
    Stored source rows' (issued + 1) calls := by
  obtain ⟨rfl, hfresh⟩ := insertJob_ok hrows
  have huncalled : ∀ call ∈ calls, call.record.schedulerId ≠ record.schedulerId := by
    intro call hcall heq
    obtain ⟨n, hn, hcallId⟩ := h.callIssued call hcall
    have := source.injective (hcallId.symm.trans (heq.trans hid))
    omega
  have hnew : JobStored calls record.schedulerId record := by
    refine ⟨rfl, hvalid, fun call hcall heq => absurd heq (huncalled call hcall), fun m _ => ?_⟩
    rw [callsOf_eq_zero fun call hcall heq => absurd heq (huncalled call hcall)]
    omega
  refine ⟨?_, fun id row hrow => ?_, fun id row hrow => ?_, h.issue.callIssued, h.within⟩
  · rw [List.map_append, List.nodup_append]
    refine ⟨h.distinct, by simp, fun id hrow id' hid' => ?_⟩
    obtain ⟨row, hmem, rfl⟩ := List.mem_map.1 hrow
    simp only [List.map_cons, List.map_nil, List.mem_singleton] at hid'
    exact hid' ▸ hfresh row hmem
  · rw [rowIn_append, Option.or_eq_some_iff] at hrow
    rcases hrow with hrow | ⟨-, hrow⟩
    · exact h.jobs id row hrow
    · split_ifs at hrow with heq
      simp only [Option.some.injEq] at hrow
      exact ⟨record, hrow.symm, heq ▸ hnew⟩
  · rw [rowIn_append, Option.or_eq_some_iff] at hrow
    rcases hrow with hrow | ⟨-, hrow⟩
    · exact h.issue.rowIssued id row hrow
    · split_ifs at hrow with heq
      exact ⟨issued, by omega, heq.symm.trans hid⟩

theorem Stored.remove (h : Stored source rows issued calls) (id : String) :
    Stored source (rows.filter (·.schedulerId ≠ id)) issued calls := by
  have hrest : ∀ id' row, rowIn (rows.filter (·.schedulerId ≠ id)) id' = some row →
      rowIn rows id' = some row := by
    intro id' row hrow
    by_cases heq : id' = id
    · rw [heq, rowIn_remove] at hrow
      simp at hrow
    · rwa [rowIn_remove_ne heq] at hrow
  exact ⟨h.distinct.sublist (List.filter_sublist.map _),
    fun id' row hrow => h.jobs id' row (hrest id' row hrow),
    fun id' row hrow => h.rowIssued id' row (hrest id' row hrow), h.callIssued, h.within⟩

/-- What an update may make of a job: another schedule in a later generation, or the same with as
many more runs as calls. -/
def Follows (stored next : JobRecord) (more : ℕ) : Prop :=
  stored.scheduleGeneration < next.scheduleGeneration ∧ more = 0 ∨
    next.scheduleGeneration = stored.scheduleGeneration ∧ next.schedule = stored.schedule ∧
      ∀ m, limit next.schedule = some m → stored.runCount + more ≤ next.runCount

section Update

variable {fails : Bool} {next stored : JobRecord} {later : List Invocation}

theorem JobStored.follows (h : JobStored calls next.schedulerId stored) (hvalid : Valid next)
    (hfollows : Follows stored next later.length) (hlater : ∀ call ∈ later, call.record = next) :
    JobStored (calls ++ later) next.schedulerId next := by
  refine ⟨rfl, hvalid, fun call hcall hid => ?_, fun m hm => ?_⟩
  · rcases List.mem_append.1 hcall with hold | hnew
    · have hgeneration := h.generations call hold hid
      rcases hfollows with ⟨hlt, -⟩ | ⟨hsame, hschedule, -⟩
      · left
        omega
      · rw [hsame, hschedule]
        exact hgeneration
    · rw [hlater call hnew]
      exact Or.inr ⟨rfl, rfl⟩
  · have hlength : callsOf next.schedulerId next.scheduleGeneration later ≤ later.length :=
      List.countP_le_length
    rw [callsOf_append]
    rcases hfollows with ⟨hlt, hnone⟩ | ⟨hsame, hschedule, hcount⟩
    · have hzero : callsOf next.schedulerId next.scheduleGeneration calls = 0 := by
        refine callsOf_eq_zero fun call hcall hid => ?_
        have := h.generations call hcall hid
        omega
      omega
    · have hcounted := h.counted m (hschedule ▸ hm)
      have := hcount m hm
      rw [hsame] at hlength ⊢
      omega

theorem JobStored.others {id : String} (h : JobStored calls id stored) (hne : id ≠ next.schedulerId)
    (hlater : ∀ call ∈ later, call.record = next) : JobStored (calls ++ later) id stored := by
  refine ⟨h.schedulerId, h.valid, fun call hcall hid => ?_, fun m hm => ?_⟩
  · rcases List.mem_append.1 hcall with hold | hnew
    · exact h.generations call hold hid
    · rw [hlater call hnew] at hid
      exact absurd hid.symm hne
  · have hzero : callsOf id stored.scheduleGeneration later = 0 := by
      refine callsOf_eq_zero fun call hcall hid => ?_
      rw [hlater call hcall] at hid
      exact absurd hid.symm hne
    rw [callsOf_append, hzero]
    exact h.counted m hm

/-- An update of a job and the calls that go with it. -/
theorem Stored.update (h : Stored source rows issued calls)
    (hrow : rowIn rows next.schedulerId = some (jobRow stored))
    (hhandler : next.handlerKey = stored.handlerKey)
    (hcreated : next.createdAtMs = stored.createdAtMs) (hvalid : Valid next)
    (hlater : ∀ call ∈ later, call.record = next) (hfollows : Follows stored next later.length)
    (hrows : updateJob fails rows next = .ok rows') :
    Stored source rows' issued (calls ++ later) := by
  have hnext := rowIn_updateJob hrows hrow hhandler hcreated
  have hstored : JobStored (calls ++ later) next.schedulerId next :=
    (h.jobStored hrow).follows hvalid hfollows hlater
  obtain ⟨n, hn, hissued⟩ := h.rowIssued _ _ hrow
  refine ⟨?_, fun id row hid => ?_, fun id row hid => ?_, fun call hcall => ?_,
    fun call hcall m hm => ?_⟩
  · rw [updateJob_ok hrows, List.map_map]
    simpa [Function.comp_def] using h.distinct
  · by_cases hne : id = next.schedulerId
    · rw [hne, hnext, Option.some.injEq] at hid
      exact ⟨next, hid.symm, hne ▸ hstored⟩
    · rw [rowIn_updateJob_ne hrows hne] at hid
      obtain ⟨record, hrecord, hold⟩ := h.jobs id row hid
      exact ⟨record, hrecord, hold.others hne hlater⟩
  · by_cases hne : id = next.schedulerId
    · exact ⟨n, hn, hne.trans hissued⟩
    · rw [rowIn_updateJob_ne hrows hne] at hid
      exact h.rowIssued id row hid
  · rcases List.mem_append.1 hcall with hold | hnew
    · exact h.callIssued call hold
    · exact ⟨n, hn, by rw [hlater call hnew, hissued]⟩
  · by_cases hsame : call.record.schedulerId = next.schedulerId ∧
        call.record.scheduleGeneration = next.scheduleGeneration
    · obtain ⟨hid, hgeneration⟩ := hsame
      have hschedule : call.record.schedule = next.schedule := by
        rcases hstored.generations call hcall hid with hlt | ⟨-, hschedule⟩
        · omega
        · exact hschedule
      rw [hschedule] at hm
      rw [hid, hgeneration]
      exact (hstored.counted m hm).trans (hvalid.limited m hm).1
    · have hold : call ∈ calls := by
        rcases List.mem_append.1 hcall with hold | hnew
        · exact hold
        · exact absurd (by simp [hlater call hnew]) hsame
      have hzero : callsOf call.record.schedulerId call.record.scheduleGeneration later = 0 := by
        refine callsOf_eq_zero fun call' hcall' hid => ?_
        rw [hlater call' hcall'] at hid ⊢
        exact fun hgeneration => hsame ⟨hid.symm, hgeneration.symm⟩
      rw [callsOf_append, hzero]
      exact h.within call hold m hm

/-- An update of a job with no call. -/
theorem Stored.change (h : Stored source rows issued calls)
    (hrows : updateJob fails rows next = .ok rows')
    (hrow : rowIn rows next.schedulerId = some (jobRow stored))
    (hhandler : next.handlerKey = stored.handlerKey)
    (hcreated : next.createdAtMs = stored.createdAtMs) (hvalid : Valid next)
    (hfollows : Follows stored next 0) : Stored source rows' issued calls := by
  have hnone : ∀ call ∈ ([] : List Invocation), call.record = next := by simp
  have hupdate := h.update hrow hhandler hcreated hvalid hnone hfollows hrows
  rwa [List.append_nil] at hupdate

end Update

end Scheduler

end Kinetick
