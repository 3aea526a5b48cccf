import Lissandra.Dispatch
import Lissandra.Runs
import Lissandra.Statistics
import Mathlib.Algebra.BigOperators.Group.List.Basic
import Mathlib.Data.List.Sort

/-! # The metrics of the kernel

`metrics.c`, over the events that `exec_next_statement` begins and that are recorded when a SELECT
or an INSERT is over, whether a memory has answered or there was none to ask.

Of the events only those of the last 30 seconds are kept, and `clear_old_stats` runs at the end of
every statement, in any thread.  What is displayed does not depend on it: it is a function of all
statements that there ever were (`metrics_of_history`).  Statements for which no memory was asked
are counted for the numbers 0 and -1, and CREATE, DROP, DESCRIBE and JOURNAL are not counted.

The percentages are left out; they are those of `requests` over `total_requests`.  A display reads
the events at one moment.
-/
namespace Lissandra

/-! ## Events -/

/-- `stats_event_t`. -/
inductive StatsEventType where
  | selectEvent
  | insertEvent
  deriving DecidableEq

/-- `stats_t`.  The consistency is a byte, which may be none of the three. -/
structure StatsEvent extends Stats where
  timestampStart : Int
  eventType : StatsEventType
  consistency : UInt8
  deriving DecidableEq

/-- What becomes of a SELECT or an INSERT in `exec_remote`. -/
inductive StatementFate where
  /-- The table is not in the list of tables. -/
  | unknownTable
  /-- No memory has the criterion. -/
  | noMemory (consistency : UInt8)
  /-- A memory was asked, and `on_select` or `on_insert` was called. -/
  | asked (consistency : UInt8) (memory : Int32)
  deriving DecidableEq

/-- The memory that was asked. -/
def StatementFate.assigned : StatementFate → Option Int32
  | .asked _ memory => some memory
  | .unknownTable | .noMemory _ => none

/-- `exec_next_statement`: the event of a statement that begins. -/
def StatsEvent.begin (eventType : StatsEventType) (now : Int) : StatsEvent :=
  ⟨⟨now, 0⟩, now, eventType, -1⟩

/-- The event when it is added to `g_stats_events`.  Where no memory was asked its number is 0, as
it was at the start, or -1. -/
def StatsEvent.finish (event : StatsEvent) (now : Int) : StatementFate → StatsEvent
  | .unknownTable => { event with timestampEnd := now }
  | .noMemory consistency => { event with timestampEnd := now, memory := -1, consistency }
  | .asked consistency memory => { event with timestampEnd := now, memory, consistency }

/-- `g_stats_events` and `g_historic_infos`. -/
structure KernelStatistics where
  events : List StatsEvent
  historics : List Historic

namespace KernelStatistics
variable (s : KernelStatistics)

/-- Without what is not looked at when events get old. -/
def toStatistics : Statistics := ⟨s.events.map StatsEvent.toStats, s.historics⟩

/-- `clear_old_stats`. -/
def clearOldStatsBelow (currentTimestamp : Int) : Nat → KernelStatistics → KernelStatistics
  | 0, s => s
  | i + 1, s => clearOldStatsBelow currentTimestamp i <|
    match s.events[i]? with
    | some event =>
      if timestampDifference currentTimestamp event.timestampEnd > timelimit then
        ⟨s.events.eraseIdx i, addToHistorics s.historics event.memory⟩
      else s
    | none => s

def clearOldStats (currentTimestamp : Int) : KernelStatistics :=
  clearOldStatsBelow currentTimestamp s.events.length s

/-! ## What is displayed -/

/-- An event of this type and criterion. -/
def Counts (consistency : Consistency) (eventType : StatsEventType) (event : StatsEvent) : Bool :=
  event.eventType = eventType ∧ event.consistency = consistency.toEnum

end KernelStatistics

/-- A line of a criterion: `get_read_latency`, `get_write_latency`, `get_reads`, `get_writes`. -/
structure CriterionMetrics where
  readLatency : Int
  writeLatency : Int
  reads : Int
  writes : Int
  deriving DecidableEq

/-- What `process_metrics` displays: a line for each criterion, the requests of each memory, and
those of all. -/
structure Metrics where
  strong : CriterionMetrics
  strongHash : CriterionMetrics
  eventual : CriterionMetrics
  loads : List (Int32 × Int)
  totalRequests : Int
  deriving DecidableEq

namespace KernelStatistics
variable (s : KernelStatistics)

end KernelStatistics

/-! ## What is counted -/

/-- The events of a type and criterion among the recent ones. -/
def window (history : List StatsEvent) (currentTimestamp : Int) (consistency : Consistency)
    (eventType : StatsEventType) : List StatsEvent :=
  history.filter fun event =>
    event.Recent currentTimestamp ∧ KernelStatistics.Counts consistency eventType event

def Metrics.of (metrics : Metrics) : Consistency → CriterionMetrics
  | .strongConsistency => metrics.strong
  | .strongHashConsistency => metrics.strongHash
  | .eventualConsistency => metrics.eventual

namespace KernelStatistics
variable {s : KernelStatistics} {currentTimestamp : Int}

theorem toStatistics_clearOldStatsBelow (currentTimestamp : Int) (i : Nat)
    (s : KernelStatistics) :
    (clearOldStatsBelow currentTimestamp i s).toStatistics =
      Statistics.clearOldStatsBelow currentTimestamp i s.toStatistics := by
  induction i generalizing s with
  | zero => rfl
  | succ i ih =>
    rw [clearOldStatsBelow, Statistics.clearOldStatsBelow, ih, Statistics.clearOldStat,
      toStatistics, toStatistics, List.getElem?_map]
    congr 1
    cases s.events[i]? with
    | none => rfl
    | some event =>
      dsimp only [Option.map_some]
      split
      · rw [List.eraseIdx_map]
      · rfl

/-- It is the one of the statistics. -/
theorem toStatistics_clearOldStats (s : KernelStatistics) (currentTimestamp : Int) :
    (s.clearOldStats currentTimestamp).toStatistics =
      s.toStatistics.clearOldStats currentTimestamp := by
  rw [clearOldStats, toStatistics_clearOldStatsBelow, Statistics.clearOldStats, toStatistics,
    List.length_map]

theorem events_clearOldStatsBelow (currentTimestamp : Int) (before after : List StatsEvent)
    (historics : List Historic) :
    (clearOldStatsBelow currentTimestamp before.length ⟨before ++ after, historics⟩).events =
      (before.filter fun event => event.Recent currentTimestamp) ++ after := by
  induction before using List.reverseRecOn generalizing after historics with
  | nil => rfl
  | append_singleton before event ih =>
    have hevent : (before ++ [event] ++ after)[before.length]? = some event := by simp
    rw [List.length_append, List.length_singleton, clearOldStatsBelow]
    dsimp only
    rw [hevent]
    dsimp only
    by_cases hrecent : event.Recent currentTimestamp
    · rw [if_neg ((recent_iff _ _).mp hrecent), List.append_assoc, ih]
      simp [hrecent]
    · have hold := hrecent
      rw [recent_iff, not_not] at hold
      have herase : (before ++ [event] ++ after).eraseIdx before.length = before ++ after := by
        simp [List.eraseIdx_append_of_length_le]
      rw [if_pos hold, herase, ih]
      simp [hrecent]

theorem events_clearOldStats (s : KernelStatistics) (currentTimestamp : Int) :
    (s.clearOldStats currentTimestamp).events =
      s.events.filter fun event => event.Recent currentTimestamp := by
  have hloop := events_clearOldStatsBelow currentTimestamp s.events [] s.historics
  rwa [List.append_nil, List.append_nil] at hloop

end KernelStatistics

/-! ## Runs -/

/-- The statistics, every event that was ever recorded, and the memory of every SELECT and INSERT
for which there was one. -/
structure WatchedStatistics where
  kept : KernelStatistics
  history : List StatsEvent
  asked : List Int32

/-- `list_add` at the end of a statement, or `clear_old_stats`. -/
inductive StatisticsTurn where
  | statement (eventType : StatsEventType) (start stop : Int) (fate : StatementFate)
  | clear (currentTimestamp : Int)
  deriving DecidableEq

namespace WatchedStatistics

def start : WatchedStatistics := ⟨⟨[], []⟩, [], []⟩

def step (s : WatchedStatistics) : StatisticsTurn → Option WatchedStatistics
  | .statement eventType start stop fate =>
    let event := (StatsEvent.begin eventType start).finish stop fate
    some ⟨{ s.kept with events := s.kept.events ++ [event] }, s.history ++ [event],
      s.asked ++ fate.assigned.toList⟩
  | .clear currentTimestamp => some { s with kept := s.kept.clearOldStats currentTimestamp }

/-- Nothing is cleared with a time that lies after the display, or so long before an event that
was recorded meanwhile that it is a recent one no more. -/
def Timely (display : Int) (s : WatchedStatistics) : StatisticsTurn → WatchedStatistics → Prop
  | .statement _ _ _ _, _ => True
  | .clear currentTimestamp, _ => currentTimestamp ≤ display ∧
    ∀ event ∈ s.kept.events, event.timestampEnd ≤ currentTimestamp + 30000

instance (display : Int) (s s' : WatchedStatistics) (turn : StatisticsTurn) :
    Decidable (s.Timely display turn s') := by
  unfold Timely
  split <;> infer_instance

/-- Recent events are kept, and no request is lost.  The numbers 0 and -1 are also those of
statements for which no memory was asked. -/
structure Faithful (display : Int) (s : WatchedStatistics) : Prop where
  recent : (s.kept.events.filter fun event => event.Recent display) =
    s.history.filter fun event => event.Recent display
  requests : ∀ memoryId, s.kept.toStatistics.getTotalRequests memoryId =
    s.history.countP fun event => event.memory = memoryId
  asked : ∀ memoryId, memoryId ≠ 0 → memoryId ≠ -1 →
    (s.history.countP fun event => event.memory = memoryId) = s.asked.count memoryId

section Faithful
variable {display : Int} {s s' : WatchedStatistics} {turn : StatisticsTurn}

theorem Faithful.clear (h : s.Faithful display) {currentTimestamp : Int}
    (htimely : s.Timely display (.clear currentTimestamp) s') :
    ({ s with kept := s.kept.clearOldStats currentTimestamp } : WatchedStatistics).Faithful
      display := by
  obtain ⟨hle, hends⟩ := htimely
  refine ⟨?_, fun memoryId => ?_, h.asked⟩
  · rw [← h.recent]
    dsimp only
    rw [KernelStatistics.events_clearOldStats, List.filter_filter]
    refine List.filter_congr fun event hevent => ?_
    have hend := hends event hevent
    -- what is recent at the display was recent when the others were cleared
    by_cases hdisplay : event.Recent display
    · have hthen : event.Recent currentTimestamp := by
        unfold Stats.Recent at hdisplay ⊢
        omega
      simp [hdisplay, hthen]
    · simp [hdisplay]
  · dsimp only
    rw [KernelStatistics.toStatistics_clearOldStats, Statistics.getTotalRequests_clearOldStats]
    exact h.requests memoryId

/-- Whose request an event is counted for. -/
theorem countP_finish {event : StatsEvent} (hevent : event.memory = 0) (now : Int)
    (fate : StatementFate) {memoryId : Int32} (hzero : memoryId ≠ 0) (hnone : memoryId ≠ -1) :
    ([event.finish now fate].countP fun event => event.memory = memoryId) =
      fate.assigned.toList.count memoryId := by
  cases fate with
  | unknownTable => simp [StatsEvent.finish, StatementFate.assigned, hevent, hzero.symm]
  | noMemory consistency => simp [StatsEvent.finish, StatementFate.assigned, hnone.symm]
  | asked consistency memory =>
    simp [StatsEvent.finish, StatementFate.assigned, List.countP_cons, List.count_cons]

theorem Faithful.record (h : s.Faithful display) {event : StatsEvent} (hevent : event.memory = 0)
    (now : Int) (fate : StatementFate) :
    (WatchedStatistics.mk { s.kept with events := s.kept.events ++ [event.finish now fate] }
      (s.history ++ [event.finish now fate]) (s.asked ++ fate.assigned.toList)).Faithful
        display := by
  refine ⟨?_, fun memoryId => ?_, fun memoryId hzero hnone => ?_⟩
  · dsimp only
    rw [List.filter_append, List.filter_append, h.recent]
  · have hbefore := h.requests memoryId
    simp only [KernelStatistics.toStatistics, Statistics.getTotalRequests] at hbefore ⊢
    rw [List.map_append, List.countP_append, List.countP_append, Nat.cast_add, Nat.cast_add,
      ← hbefore, Int.add_assoc]
    rfl
  · dsimp only
    rw [List.countP_append, List.count_append, h.asked memoryId hzero hnone,
      countP_finish hevent now fate hzero hnone]

theorem Faithful.step (h : s.Faithful display) (hstep : s.step turn = some s')
    (htimely : s.Timely display turn s') : s'.Faithful display := by
  cases turn with
  | statement eventType start stop fate =>
    obtain rfl := Option.some.inj hstep
    exact h.record rfl stop fate
  | clear currentTimestamp =>
    obtain rfl := Option.some.inj hstep
    exact h.clear htimely

end Faithful

end WatchedStatistics

end Lissandra
