import Kinetick.Scheduler.OnceInput

/-!
# Wall clocks are resolved exactly

Both guesses of an offset, the instant asked for and every instant that shows the wall clock lie
within two days of each other, and in so short a time an offset changes at most once. On which side
of the change the guesses fall decides whether the second one is right, and it is wherever a guess
can be.
-/

namespace Kinetick

namespace OnceInput

open Calendar

/-! ## Offsets -/

section Offsets

variable {zone : Zone}

/-- The time zone shows the wall clock at the instant. -/
def Zone.Shows (zone : Zone) (t : ℤ) (parts : DateTime) : Prop := getWallClockParts zone t = parts

theorem Zone.constant {s t : ℤ} (hst : s ≤ t) (h : ∀ c, s < c → c ≤ t → ¬zone.ChangesAt c) :
    zone.offset s = zone.offset t := by
  induction t, hst using Int.leInduction with
  | base => rfl
  | succ t hst ih =>
    have hlast := h (t + 1) (by omega) (by omega)
    rw [Zone.ChangesAt, not_not, Int.add_sub_cancel] at hlast
    rw [← hlast]
    exact ih fun c hc hct => h c hc (by omega)

/-- In less than 72 hours an offset changes at most once. -/
theorem Zone.window (hspaced : zone.Spaced) {first last : ℤ} (h : last - first < 72 * 3600000) :
    ∃ c before after, (before = after ∨ zone.ChangesAt c) ∧
      ∀ t, first ≤ t → t ≤ last → zone.offset t = if t < c then before else after := by
  by_cases hchange : ∃ c, first < c ∧ c ≤ last ∧ zone.ChangesAt c
  · obtain ⟨c, hfirst, hlast, hc⟩ := hchange
    refine ⟨c, zone.offset first, zone.offset c, .inr hc, fun t hlow hhigh => ?_⟩
    split_ifs with ht
    · refine (Zone.constant hlow fun d hd hdt hchange => ?_).symm
      have := hspaced d c hchange hc (by omega)
      omega
    · refine (Zone.constant (by omega) fun d hd hdt hchange => ?_).symm
      have := hspaced c d hc hchange (by omega)
      omega
  · refine ⟨first, zone.offset first, zone.offset first, .inl rfl, fun t hlow hhigh => ?_⟩
    rw [ite_self]
    exact (Zone.constant hlow fun c hc hct hchanges =>
      hchange ⟨c, hc, by omega, hchanges⟩).symm

/-- Where an instant shows the second, the second guess does. -/
theorem Zone.guess (hspaced : zone.Spaced) (hwhole : zone.Whole) {local' t : ℤ}
    (hlocal : local' % 1000 = 0) (ht : (t + 1000 * zone.offset t) / 1000 = local' / 1000) :
    let guess := local' - 1000 * zone.offset (local' - 1000 * zone.offset local')
    guess + 1000 * zone.offset guess = local' := by
  obtain ⟨c, before, after, hc, hwindow⟩ :=
    @Zone.window zone hspaced (local' - 86400000) (local' + 86401000) (by omega)
  have hc : before = after ∨ c % 1000 = 0 := hc.imp_right (hwhole c)
  have hbound := zone.bounded
  have hlocalOffset := hwindow local' (by omega) (by omega)
  obtain ⟨a, ha⟩ : ∃ a, zone.offset local' = a := ⟨_, rfl⟩
  have hba := hbound local'
  rw [ha] at hlocalOffset hba ⊢
  obtain ⟨b, hb⟩ : ∃ b, zone.offset (local' - 1000 * a) = b := ⟨_, rfl⟩
  have hbb := hbound (local' - 1000 * a)
  have hfirstOffset := hwindow (local' - 1000 * a) (by omega) (by omega)
  rw [hb] at hfirstOffset hbb ⊢
  have hbg := hbound (local' - 1000 * b)
  have hguessOffset := hwindow (local' - 1000 * b) (by omega) (by omega)
  have hbt := hbound t
  have htOffset := hwindow t (by omega) (by omega)
  simp only
  omega

end Offsets

/-! ## The calendar at the instants that count -/

/-- The year of a second that is not too early is none that `Date.UTC` takes for another. -/
theorem year_late {seconds : ℤ} (h : -58979923200 ≤ seconds) : 99 < (dateTime seconds).year := by
  simp only [dateTime, yearFromDay]
  omega

/-- Reading a wall clock as if it were of the time zone without an offset. -/
def localMs (parts : DateTime) : ℤ :=
  dateUTC parts.year (parts.month - 1) parts.day parts.hour parts.minute parts.second

theorem localMs_eq {parts : DateTime} (h : 99 < parts.year) :
    localMs parts = 1000 * secondsOf parts := by
  have hyear : ¬(0 ≤ parts.year ∧ parts.year ≤ 99) := by omega
  rw [localMs, dateUTC, if_neg hyear]
  rfl

theorem localMs_dateTime {seconds : ℤ} (h : -58979923200 ≤ seconds) :
    localMs (dateTime seconds) = 1000 * seconds := by
  rw [localMs_eq (year_late h), secondsOf_dateTime]

theorem localMs_whole (parts : DateTime) : localMs parts % 1000 = 0 := by
  simp only [localMs, dateUTC]
  omega

/-- Fields that are digits, of a year that has four. -/
structure FourDigits (parts : DateTime) : Prop where
  year : 1000 ≤ parts.year
  month : 0 ≤ parts.month
  day : 0 ≤ parts.day
  hour : 0 ≤ parts.hour
  minute : 0 ≤ parts.minute
  second : 0 ≤ parts.second

theorem localMs_late {parts : DateTime} (h : FourDigits parts) :
    -58979000000000 ≤ localMs parts := by
  obtain ⟨hyear, hmonth, hday, hhour, hminute, hsecond⟩ := h
  rw [localMs_eq (by omega), secondsOf, makeDay, dayFromYear, daysBeforeMonth, leapDay]
  omega

section Resolve

variable {zone : Zone}

theorem getTimeZoneOffsetMs_eq {utcMs : ℤ} (hwhole : utcMs % 1000 = 0)
    (h : -58979923200000 ≤ utcMs + 1000 * zone.offset utcMs) :
    getTimeZoneOffsetMs zone utcMs = 1000 * zone.offset utcMs := by
  change localMs (getWallClockParts zone utcMs) - utcMs = _
  rw [getWallClockParts, localMs_dateTime (by omega)]
  omega

/-- What the instant comes to after the offset has been guessed twice. -/
def secondGuess (zone : Zone) (parts : DateTime) : ℤ :=
  localMs parts - 1000 * zone.offset (localMs parts - 1000 * zone.offset (localMs parts))

theorem secondGuess_eq {parts : DateTime} (h : FourDigits parts) :
    localMs parts - getTimeZoneOffsetMs zone
      (localMs parts - getTimeZoneOffsetMs zone (localMs parts)) = secondGuess zone parts := by
  have hlate := localMs_late h
  have hwhole := localMs_whole parts
  have hbound := zone.bounded (localMs parts)
  have hbound' := zone.bounded (localMs parts - 1000 * zone.offset (localMs parts))
  rw [getTimeZoneOffsetMs_eq hwhole (by omega),
    getTimeZoneOffsetMs_eq (by omega) (by omega), secondGuess]

/-- The second guess is the answer if it shows the wall clock. -/
theorem zonedWallClock_of_shows {parts : DateTime} (timezone : String) (h : FourDigits parts)
    (hshows : zone.Shows (secondGuess zone parts) parts) :
    zonedWallClockToEpochMs parts timezone zone = .ok (secondGuess zone parts) := by
  change (if getWallClockParts zone (localMs parts - getTimeZoneOffsetMs zone
    (localMs parts - getTimeZoneOffsetMs zone (localMs parts))) ≠ parts then _
      else Except.ok (localMs parts - getTimeZoneOffsetMs zone
        (localMs parts - getTimeZoneOffsetMs zone (localMs parts)))) = _
  rw [Zone.Shows] at hshows
  rw [secondGuess_eq h, if_neg (not_not.2 hshows)]

theorem zonedWallClock_of_not_shows {parts : DateTime} (timezone : String) (h : FourDigits parts)
    (hshows : ¬zone.Shows (secondGuess zone parts) parts) :
    ∃ e, zonedWallClockToEpochMs parts timezone zone = .error e := by
  change ∃ e, (if getWallClockParts zone (localMs parts - getTimeZoneOffsetMs zone
    (localMs parts - getTimeZoneOffsetMs zone (localMs parts))) ≠ parts then _
      else Except.ok (localMs parts - getTimeZoneOffsetMs zone
        (localMs parts - getTimeZoneOffsetMs zone (localMs parts)))) = .error e
  rw [Zone.Shows] at hshows
  rw [secondGuess_eq h, if_pos hshows]
  exact ⟨_, rfl⟩

theorem secondGuess_shows (hspaced : zone.Spaced) (hwhole : zone.Whole) {parts : DateTime}
    (h : FourDigits parts) {t : ℤ} (ht : zone.Shows t parts) :
    zone.Shows (secondGuess zone parts) parts := by
  obtain ⟨s, hs⟩ : ∃ s, (t + 1000 * zone.offset t) / 1000 = s := ⟨_, rfl⟩
  rw [Zone.Shows, getWallClockParts, hs] at ht
  have hlocal : localMs parts = 1000 * s := by
    have hyear := h.year
    rw [localMs_eq (by omega), ← ht, secondsOf_dateTime]
  have hguess := Zone.guess hspaced hwhole (localMs_whole parts) (t := t) (by omega)
  rw [Zone.Shows, getWallClockParts, secondGuess, hguess, ← ht]
  congr 1
  rw [ht]
  omega

/-- What a wall clock comes to: an instant that shows it, if there is one, and else an error. -/
structure Resolved (zone : Zone) (parts : DateTime) (r : Checked ℤ) : Prop where
  shown : (∃ t, zone.Shows t parts) → ∃ t, r = .ok t ∧ zone.Shows t parts
  unshown : (¬∃ t, zone.Shows t parts) → ∃ e, r = .error e
  invalid : ¬parts.Valid → ∃ e, r = .error e
  only : ∀ t, r = .ok t → zone.Shows t parts

theorem zonedWallClockToEpochMs_resolved (hspaced : zone.Spaced) (hwhole : zone.Whole)
    {parts : DateTime} (timezone : String) (h : FourDigits parts) :
    Resolved zone parts (zonedWallClockToEpochMs parts timezone zone) := by
  by_cases hshows : zone.Shows (secondGuess zone parts) parts
  · have hok := zonedWallClock_of_shows timezone h hshows
    refine ⟨fun _ => ⟨_, hok, hshows⟩, fun hnot => absurd ⟨_, hshows⟩ hnot, fun hinvalid => ?_, ?_⟩
    · rw [Zone.Shows, getWallClockParts] at hshows
      exact absurd (hshows ▸ dateTime_valid _) hinvalid
    · intro t ht
      rw [hok] at ht
      cases ht
      exact hshows
  · obtain ⟨e, he⟩ := zonedWallClock_of_not_shows timezone h hshows
    refine ⟨?_, fun _ => ⟨e, he⟩, fun _ => ⟨e, he⟩, fun t ht => ?_⟩
    · rintro ⟨t, ht⟩
      exact absurd (secondGuess_shows hspaced hwhole h ht) hshows
    · rw [he] at ht
      cases ht

end Resolve

/-! ## Inputs -/

theorem takeDigits_some {n value : ℕ} {text rest : List Char}
    (h : takeDigits n text = some (value, rest)) : rest = text.drop n := by
  unfold takeDigits at h
  simp only at h
  split_ifs at h
  cases h
  rfl

theorem takeChar_some {allowed text rest : List Char} (h : takeChar allowed text = some rest) :
    ∃ c ∈ allowed, text = c :: rest := by
  unfold takeChar at h
  split at h
  · rename_i c cs
    split_ifs at h with hc
    cases h
    exact ⟨c, hc, rfl⟩
  · cases h

/-- A wall clock is read from digits, of a text that has a character that is none. -/
theorem parseWallClock_some {input : List Char} {parts : DateTime}
    (h : parseWallClockWithoutOffset input = some parts) (hyear : 1000 ≤ parts.year) :
    FourDigits parts ∧ input.all Char.isDigit = false := by
  simp only [parseWallClockWithoutOffset, bind, Option.bind_eq_some_iff] at h
  obtain ⟨⟨year, text⟩, htext, rest, hrest, ⟨month, _⟩, -, _, -, ⟨day, _⟩, -, _, -, ⟨hour, _⟩, -, _,
    -, ⟨minute, _⟩, -, second, -, hparts⟩ := h
  cases hparts
  refine ⟨⟨hyear, ?_, ?_, ?_, ?_, ?_⟩, ?_⟩
  · exact Int.natCast_nonneg month
  · exact Int.natCast_nonneg day
  · exact Int.natCast_nonneg hour
  · exact Int.natCast_nonneg minute
  · exact Int.natCast_nonneg second
  · obtain ⟨c, hc, rfl⟩ := takeChar_some hrest
    have hmem : c ∈ input :=
      List.mem_of_mem_drop (takeDigits_some htext ▸ List.mem_cons_self)
    rw [List.mem_singleton.1 hc] at hmem
    rw [List.all_eq_false]
    exact ⟨'-', hmem, by decide⟩

section Requests

variable (platform : Platform) {zone : Zone} {timezone input : String} {parts : DateTime}

/-- A wall clock with a time zone is resolved in it, and what it comes to has to be in the future. -/
theorem parseOnceRunAtMs_wallClock (hzone : platform.zones timezone = some zone)
    (htimezone : timezone ≠ "")
    (hparse : parseWallClockWithoutOffset (jsTrim input).toList = some parts)
    (hyear : 1000 ≤ parts.year) (now : JsNumber) :
    parseOnceRunAtMs platform { at' := some (.text input), timezone := some timezone } now =
      (zonedWallClockToEpochMs parts timezone zone).bind fun t =>
        requireFuture now (.finite t) := by
  have hdigits := (parseWallClock_some hparse hyear).2
  have hinput : jsTrim input ≠ "" := by
    intro hempty
    rw [hempty] at hparse
    cases hparse
  have hvalidate : validateTimeZone platform (some timezone) = .ok (some (timezone, zone)) := by
    have hfilter : (some timezone).filter (· ≠ "") = some timezone := by
      rw [Option.filter_some, if_pos (by simp [htimezone])]
    simp only [validateTimeZone, hfilter, hzone]
  have hgiven : (some (AtInput.text input)).filter AtInput.isGiven = some (.text input) := by
    rw [Option.filter_some, if_pos (by simp [AtInput.isGiven, hinput])]
  have htext : parseAtMs platform (.text input) (some timezone) =
      (zonedWallClockToEpochMs parts timezone zone).map fun t => .finite t := by
    simp only [parseAtMs, parseAtText, hvalidate, hdigits, hparse, bind, Except.bind,
      Bool.false_eq_true, and_false, if_false]
    cases zonedWallClockToEpochMs parts timezone zone <;> rfl
  simp only [parseOnceRunAtMs, hgiven, Option.filter_none, htext]
  cases zonedWallClockToEpochMs parts timezone zone <;> rfl

/-- Where offsets change at whole seconds, and at least 72 hours apart, a wall clock is resolved to an
instant that shows it, and throws if there is none. -/
theorem wallClock_resolved (hspaced : zone.Spaced) (hwhole : zone.Whole)
    (hzone : platform.zones timezone = some zone) (htimezone : timezone ≠ "")
    (hparse : parseWallClockWithoutOffset (jsTrim input).toList = some parts)
    (hyear : 1000 ≤ parts.year) :
    Resolved zone parts (zonedWallClockToEpochMs parts timezone zone) ∧
      ∀ now, parseOnceRunAtMs platform { at' := some (.text input), timezone := some timezone } now =
        (zonedWallClockToEpochMs parts timezone zone).bind fun t =>
          requireFuture now (.finite t) :=
  ⟨zonedWallClockToEpochMs_resolved hspaced hwhole timezone (parseWallClock_some hparse hyear).1,
    parseOnceRunAtMs_wallClock platform hzone htimezone hparse hyear⟩

end Requests

/-- A time zone that sets its clocks forward by an hour. -/
def forwardZone (change : ℤ) : Zone where
  offset t := if t < change then 0 else 3600
  bounded t := by split_ifs <;> decide

theorem forwardZone_changesAt {change t : ℤ} (h : (forwardZone change).ChangesAt t) : t = change := by
  unfold Zone.ChangesAt forwardZone at h
  simp only at h
  omega

/-- A platform that knows one time zone. -/
def onePlatform (zone : Zone) : Platform where
  zones name := if name = "Z" then some zone else none
  dateParse _ := .nan
  number _ := .nan
  plus a _ := a
  times a _ := a
  floor a := a

theorem wallClock_resolved_forward :
    Resolved (forwardZone 0) ⟨1970, 1, 1, 0, 30, 0⟩
        (zonedWallClockToEpochMs ⟨1970, 1, 1, 0, 30, 0⟩ "Z" (forwardZone 0)) ∧
      ∀ now, parseOnceRunAtMs (onePlatform (forwardZone 0))
          { at' := some (.text "1970-01-01 00:30"), timezone := some "Z" } now =
        (zonedWallClockToEpochMs ⟨1970, 1, 1, 0, 30, 0⟩ "Z" (forwardZone 0)).bind fun t =>
          requireFuture now (.finite t) := by
  refine wallClock_resolved (onePlatform (forwardZone 0)) ?_ ?_ rfl (by decide) ?_ (by decide)
  · intro s t hs ht hst
    rw [forwardZone_changesAt hs, forwardZone_changesAt ht] at hst
    omega
  · intro t ht
    rw [forwardZone_changesAt ht]
    rfl
  · decide +kernel

/-- Where the clocks change within a second, an instant may show a wall clock that is not found. -/
theorem wallClock_lost :
    (forwardZone 500).Spaced ∧ (forwardZone 500).Shows 500 ⟨1970, 1, 1, 1, 0, 0⟩ ∧
      zonedWallClockToEpochMs ⟨1970, 1, 1, 1, 0, 0⟩ "Z" (forwardZone 500) =
        .error ⟨"Invalid cron once at time for timezone Z: nonexistent wall-clock time"⟩ := by
  refine ⟨fun s t hs ht hst => ?_, by unfold Zone.Shows; decide, by decide⟩
  rw [forwardZone_changesAt hs, forwardZone_changesAt ht] at hst
  omega

end OnceInput

end Kinetick
