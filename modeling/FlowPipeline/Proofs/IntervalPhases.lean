import FlowPipeline.Cadence
import Mathlib.Data.Int.ModEq
import Mathlib.Tactic.Positivity

/-! # Phases of intervals

A cadence that is accepted gives an interval of five minutes at least and an offset inside both the
interval and the hour. A moment less its offset is the moment at which its interval starts. Whenever
a cadence is resolved, these starts lie whole intervals apart if and only if the interval divides
the hour.
-/

namespace FlowPipeline

namespace Moment

/-- The moment is a time of the calendar, shown by a clock for UTC. -/
structure IsUtc (m : Moment) : Prop where
  date : Date.of? m.date.year m.date.month m.date.day = .ok m.date
  hour : m.hour < 24
  minute : m.minute < 60
  second : m.second < 60
  microsecond : m.microsecond < 1000000
  offset : m.offset = some 0

def epoch : Moment := ⟨⟨1970, 1, 1⟩, 0, 0, 0, 0, some 0⟩

/-- The milliseconds since the epoch. As on the clock, what has passed of the current millisecond is
cut off, before the epoch as well. -/
def sinceEpoch (m : Moment) : Int := (m.instant - epoch.instant) / 1000

/-- The milliseconds that a clock shows since the full hour. -/
def intoHour (m : Moment) : Int :=
  m.minute * Cadence.minute + m.second * Cadence.second + m.microsecond / 1000

variable {m : Moment}

theorem sinceEpoch_eq_tdiv (h : epoch.instant ≤ m.instant) :
    m.sinceEpoch = (m.instant - epoch.instant).tdiv 1000 :=
  (Int.tdiv_eq_ediv_of_nonneg (Int.sub_nonneg_of_le h)).symm

theorem intoHour_nonneg (m : Moment) : 0 ≤ m.intoHour := by
  unfold intoHour
  positivity

theorem IsUtc.intoHour_lt (h : m.IsUtc) : m.intoHour < Cadence.hour := by
  obtain ⟨-, -, hminute, hsecond, hmicrosecond, -⟩ := h
  unfold intoHour
  simp only [Cadence.hour, Cadence.minute, Cadence.second]
  omega

/-- The milliseconds of whole hours and those since the last one. -/
theorem IsUtc.sinceEpoch_eq (h : m.IsUtc) :
    m.sinceEpoch = Cadence.hour * (24 * (m.date.ordinal - 719163) + m.hour) + m.intoHour := by
  have hepoch : epoch.instant = 719163 * 24 * 60 * 60 * 1000000 := by decide
  rw [sinceEpoch, hepoch, instant, h.offset, intoHour]
  simp only [Cadence.hour, Cadence.minute, Cadence.second, Option.getD_some]
  omega

end Moment

namespace Cadence

/-- The start of the interval that a moment lies in, in milliseconds since the epoch. -/
def Interval.anchor (i : Interval) (now : Moment) : Int := now.sinceEpoch - i.offset

/-- At any two moments the cadence gives this interval, with starts whole intervals apart. -/
def Converges (cadence : String) (length : Int) : Prop :=
  ∀ now now' : Moment, now.IsUtc → now'.IsUtc →
    ∃ i i' : Interval, resolve cadence now = .ok i ∧ resolve cadence now' = .ok i' ∧
      i.length = length ∧ i'.length = length ∧ i.anchor now ≡ i'.anchor now' [ZMOD length]

variable {cadence : String} {now : Moment} {i : Interval} {length : Int}

theorem offset_eq (h : 0 < length) (now : Moment) : offset length now = now.intoHour % length := by
  rw [offset, if_neg (Int.not_le.2 h)]
  rfl

/-- The fixed phrases stand for long intervals, so that their lengths need no check. -/
theorem shortest_le_phrases :
    ∀ p ∈ phrases, ∀ length ∈ duration? p.2, (shortest : Int) ≤ length := by
  decide

theorem intervalText_fixed {text : String} (h : intervalText cadence = (text, true)) :
    ∃ phrase, (phrase, text) ∈ phrases := by
  unfold intervalText at h
  dsimp only at h
  split at h
  case h_1 interval hphrase =>
    obtain ⟨before, after, hphrases, -⟩ := List.lookup_eq_some_iff.1 hphrase
    obtain rfl : interval = text := congrArg Prod.fst h
    rw [hphrases]
    exact ⟨_, List.mem_append_right before List.mem_cons_self⟩
  case h_2 =>
    have hfixed := congrArg Prod.snd h
    split_ifs at hfixed

/-- What is accepted is long enough, and the moment decides on the offset alone. -/
theorem resolve_eq_ok (h : resolve cadence now = .ok i) :
    (shortest : Int) ≤ i.length ∧ i.offset = offset i.length now ∧
      ∀ now', resolve cadence now' = .ok { i with offset := offset i.length now' } := by
  unfold resolve at h ⊢
  rcases htext : intervalText cadence with ⟨text, fixed⟩
  rw [htext] at h
  dsimp only at h ⊢
  rcases hlength : duration? text with _ | length
  · rw [hlength] at h
    cases h
  · rw [hlength] at h
    dsimp only at h ⊢
    split_ifs at h ⊢ with hshort
    obtain rfl := Except.ok.inj h
    refine ⟨?_, rfl, fun _ => rfl⟩
    rcases fixed with _ | _
    · simpa using hshort
    · obtain ⟨phrase, hphrase⟩ := intervalText_fixed htext
      exact shortest_le_phrases _ hphrase _ hlength

/-- If the interval divides the hour, the start of the current one is a multiple of it. -/
theorem dvd_anchor (hnow : now.IsUtc) (hpos : 0 < length) (hdvd : length ∣ hour) :
    length ∣ now.sinceEpoch - offset length now := by
  have hinside : length ∣ now.intoHour - now.intoHour % length := Int.dvd_self_sub_emod
  rw [hnow.sinceEpoch_eq, offset_eq hpos, Int.add_sub_assoc]
  exact Int.dvd_add (Int.dvd_mul_of_dvd_left hdvd) hinside

/-- The starts of the intervals at two full hours are an hour apart. -/
theorem Converges.dvd (hpos : 0 < length) (h : Converges cadence length) : length ∣ hour := by
  have hfirst : Moment.epoch.IsUtc := ⟨rfl, by decide, by decide, by decide, by decide, rfl⟩
  have hsecond : ({ Moment.epoch with hour := 1 } : Moment).IsUtc :=
    ⟨rfl, by decide, by decide, by decide, by decide, rfl⟩
  obtain ⟨i, i', hi, hi', rfl, hlength, hanchor⟩ := h _ _ hfirst hsecond
  have hoffset : i.offset = 0 := by
    rw [(resolve_eq_ok hi).2.1, offset_eq hpos]
    exact Int.zero_emod _
  have hoffset' : i'.offset = 0 := by
    rw [(resolve_eq_ok hi').2.1, hlength, offset_eq hpos]
    exact Int.zero_emod _
  have hhour : i'.anchor { Moment.epoch with hour := 1 } - i.anchor Moment.epoch = hour := by
    rw [Interval.anchor, Interval.anchor, hoffset, hoffset']
    decide
  rw [← hhour]
  exact hanchor.dvd

/-- What is accepted is an interval of five minutes at least, with an offset inside both it and the
hour. All moments find the same starts of intervals if and only if the interval divides the hour. -/
theorem resolve_schedules (hnow : now.IsUtc) (h : resolve cadence now = .ok i) :
    ((shortest : Int) ≤ i.length ∧ 0 ≤ i.offset ∧ i.offset < min i.length hour) ∧
      (Converges cadence i.length ↔ i.length ∣ hour) := by
  obtain ⟨hshortest, hoffset, hresolve⟩ := resolve_eq_ok h
  have hpos : 0 < i.length := by
    have hminutes : (0 : Int) < shortest := by decide
    omega
  rw [offset_eq hpos] at hoffset
  refine ⟨⟨hshortest, ?_, ?_⟩, Converges.dvd hpos, fun hdvd now now' hnow hnow' => ?_⟩
  · rw [hoffset]
    exact Int.emod_nonneg _ hpos.ne'
  · rw [hoffset, lt_min_iff]
    have hinside : now.intoHour % i.length ≤ now.intoHour := by
      have hquotient := Int.mul_nonneg hpos.le (Int.ediv_nonneg now.intoHour_nonneg hpos.le)
      have hsplit := Int.emod_add_mul_ediv now.intoHour i.length
      omega
    exact ⟨Int.emod_lt_of_pos _ hpos, hinside.trans_lt hnow.intoHour_lt⟩
  · refine ⟨_, _, hresolve now, hresolve now', rfl, rfl, ?_⟩
    have hstart := Int.emod_eq_zero_of_dvd (dvd_anchor hnow hpos hdvd)
    have hstart' := Int.emod_eq_zero_of_dvd (dvd_anchor hnow' hpos hdvd)
    exact hstart.trans hstart'.symm

def lateEvening : Moment := ⟨⟨2024, 3, 9⟩, 22, 52, 0, 0, some 0⟩

/-- A quarter of an hour is kept by all moments; seven minutes are not. -/
theorem resolve_schedules_minutes :
    (lateEvening.IsUtc ∧ resolve "every 15m" lateEvening = .ok ⟨"15m", 900000, 420000⟩ ∧
      resolve "Every  7 Min" lateEvening = .ok ⟨"7 Min", 420000, 180000⟩) ∧
    Converges "every 15m" 900000 ∧ ¬Converges "Every  7 Min" 420000 := by
  have hnow : lateEvening.IsUtc := ⟨rfl, by decide, by decide, by decide, by decide, rfl⟩
  have hquarter : resolve "every 15m" lateEvening = .ok ⟨"15m", 900000, 420000⟩ := by
    decide
  have hseven : resolve "Every  7 Min" lateEvening = .ok ⟨"7 Min", 420000, 180000⟩ := by
    decide
  exact ⟨⟨hnow, hquarter, hseven⟩, (resolve_schedules hnow hquarter).2.2 (by decide),
    mt (resolve_schedules hnow hseven).2.1 (by decide)⟩

end Cadence
end FlowPipeline
