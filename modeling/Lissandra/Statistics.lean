import Lissandra.KeyedList
import Mathlib.Data.List.Induction

/-! # Statistics of the kernel

`stats.c`: the events of the last 30 seconds, one for each SELECT or INSERT, and the numbers of
older ones for each memory.  `clear_old_stats` goes through the events from the last one to the
first, takes out those that are too old and counts them.  Of these nothing is lost: the requests of
a memory are all the events that were recorded for it (`requests_conserved`).

Times are those of `get_timestamp`, and no two of them are so far apart that a `long long` is too
small for the difference.
-/
namespace Lissandra

/-- `stats_t`, as far as it is looked at when events get old. -/
structure Stats where
  timestampEnd : Int
  memory : Int32
  deriving DecidableEq

/-- `historic_t`. -/
structure Historic where
  memoryId : Int32
  requests : Int
  deriving DecidableEq

/-- `g_stats_events` and `g_historic_infos`. -/
structure Statistics where
  events : List Stats
  historics : List Historic
  deriving DecidableEq

/-- `timestamp_difference`. -/
def timestampDifference (initial final : Int) : Int :=
  if final > initial then final - initial else initial - final

/-- `timelimit`: 30 seconds. -/
def timelimit : Int := 30000

/-- `add_to_historics`. -/
def addToHistorics : List Historic → Int32 → List Historic
  | [], memoryId => [⟨memoryId, 1⟩]
  | historic :: rest, memoryId =>
    if historic.memoryId = memoryId then { historic with requests := historic.requests + 1 } :: rest
    else historic :: addToHistorics rest memoryId

/-- `get_historic_requests`. -/
def getHistoricRequests (historics : List Historic) (memoryId : Int32) : Int :=
  match lookup Historic.memoryId memoryId historics with
  | some historic => historic.requests
  | none => 0

namespace Statistics
variable (s : Statistics)

/-- The body of the loop of `clear_old_stats`. -/
def clearOldStat (currentTimestamp : Int) (i : Nat) : Statistics :=
  match s.events[i]? with
  | some event =>
    if timestampDifference currentTimestamp event.timestampEnd > timelimit then
      ⟨s.events.eraseIdx i, addToHistorics s.historics event.memory⟩
    else s
  | none => s

/-- The loop, from the event before this index down to the first one. -/
def clearOldStatsBelow (currentTimestamp : Int) : Nat → Statistics → Statistics
  | 0, s => s
  | i + 1, s => clearOldStatsBelow currentTimestamp i (s.clearOldStat currentTimestamp i)

/-- `clear_old_stats`. -/
def clearOldStats (currentTimestamp : Int) : Statistics :=
  clearOldStatsBelow currentTimestamp s.events.length s

/-- `get_total_requests`. -/
def getTotalRequests (memoryId : Int32) : Int :=
  getHistoricRequests s.historics memoryId
    + s.events.countP fun event => event.memory = memoryId

/-- `get_total_requests_overall`, of the memories with these numbers. -/
def getTotalRequestsOverall (memories : List Int32) : Int :=
  memories.foldl (fun total memoryId => total + s.getTotalRequests memoryId) 0

end Statistics

/-! ## Counters -/

section Historics
variable {historics : List Historic} {memoryId other : Int32}

theorem addToHistorics_eq_put (historics : List Historic) (memoryId : Int32) :
    addToHistorics historics memoryId = put Historic.memoryId historics
      ⟨memoryId, getHistoricRequests historics memoryId + 1⟩ := by
  induction historics with
  | nil => rfl
  | cons historic rest ih =>
    rw [addToHistorics, put]
    split_ifs with hid
    · rw [getHistoricRequests, lookup_cons_of_eq hid, ← hid]
    · rw [ih, getHistoricRequests, getHistoricRequests, lookup_cons_of_ne hid]

theorem nodup_addToHistorics (h : (historics.map Historic.memoryId).Nodup) (memoryId : Int32) :
    ((addToHistorics historics memoryId).map Historic.memoryId).Nodup := by
  rw [addToHistorics_eq_put]
  exact nodup_put h

/-- **One counter** goes up by one. -/
theorem getHistoricRequests_addToHistorics (historics : List Historic) (memoryId other : Int32) :
    getHistoricRequests (addToHistorics historics memoryId) other
      = getHistoricRequests historics other + if memoryId = other then 1 else 0 := by
  have hput := @entryMap_put _ _ Historic.memoryId _ historics
    ⟨memoryId, getHistoricRequests historics memoryId + 1⟩
  have hmap := congrFun hput other
  rw [← addToHistorics_eq_put] at hmap
  unfold getHistoricRequests
  unfold entryMap at hmap
  rw [hmap]
  by_cases hid : memoryId = other
  · subst hid
    rw [Function.update_self, if_pos rfl]
    rfl
  · rw [Function.update_of_ne (Ne.symm hid), if_neg hid, Int.add_zero]

end Historics

/-! ## The loop -/

/-- The events of these memories are counted, one after the other. -/
def addAllToHistorics (historics : List Historic) (events : List Stats) : List Historic :=
  events.foldl (fun historics event => addToHistorics historics event.memory) historics

theorem nodup_addAllToHistorics {historics : List Historic}
    (h : (historics.map Historic.memoryId).Nodup) (events : List Stats) :
    ((addAllToHistorics historics events).map Historic.memoryId).Nodup := by
  induction events generalizing historics with
  | nil => exact h
  | cons event rest ih => exact ih (nodup_addToHistorics h event.memory)

theorem getHistoricRequests_addAllToHistorics (historics : List Historic) (events : List Stats)
    (memoryId : Int32) :
    getHistoricRequests (addAllToHistorics historics events) memoryId
      = getHistoricRequests historics memoryId
        + events.countP fun event => event.memory = memoryId := by
  induction events generalizing historics with
  | nil => simp [addAllToHistorics]
  | cons event rest ih =>
    have hrest := ih (addToHistorics historics event.memory)
    rw [getHistoricRequests_addToHistorics] at hrest
    rw [addAllToHistorics, List.foldl_cons]
    refine hrest.trans ?_
    rw [List.countP_cons]
    simp only [decide_eq_true_eq]
    split
    · omega
    · omega

/-- An event at most 30 seconds away. -/
def Stats.Recent (currentTimestamp : Int) (event : Stats) : Prop :=
  (currentTimestamp - event.timestampEnd).natAbs ≤ 30000

instance (currentTimestamp : Int) (event : Stats) : Decidable (event.Recent currentTimestamp) :=
  inferInstanceAs (Decidable (_ ≤ _))

theorem recent_iff (currentTimestamp : Int) (event : Stats) : event.Recent currentTimestamp ↔
    ¬ timestampDifference currentTimestamp event.timestampEnd > timelimit := by
  unfold Stats.Recent timestampDifference timelimit
  split
  · omega
  · omega

namespace Statistics
variable {s : Statistics} {currentTimestamp : Int}

/-- What the loop does with the events before the ones that it has seen. -/
theorem clearOldStatsBelow_eq (currentTimestamp : Int) (before after : List Stats)
    (historics : List Historic) :
    clearOldStatsBelow currentTimestamp before.length ⟨before ++ after, historics⟩
      = ⟨before.filter (Stats.Recent currentTimestamp) ++ after,
        addAllToHistorics historics
          (before.reverse.filter fun event => ¬ event.Recent currentTimestamp)⟩ := by
  induction before using List.reverseRecOn generalizing after historics with
  | nil => rfl
  | append_singleton before event ih =>
    have hevent : (before ++ [event] ++ after)[before.length]? = some event := by simp
    rw [List.length_append, List.length_singleton, clearOldStatsBelow, clearOldStat]
    dsimp only
    rw [hevent]
    dsimp only
    by_cases hrecent : event.Recent currentTimestamp
    · rw [if_neg ((recent_iff _ _).mp hrecent), List.append_assoc, ih]
      simp [hrecent]
    · have hold := hrecent
      rw [recent_iff, not_not] at hold
      have herase : (before ++ [event] ++ after).eraseIdx before.length = before ++ after := by
        simp [List.eraseIdx_append_of_length_le]
      rw [if_pos hold, herase, ih]
      simp [hrecent, addAllToHistorics]

theorem clearOldStats_eq (s : Statistics) (currentTimestamp : Int) :
    s.clearOldStats currentTimestamp = ⟨s.events.filter (Stats.Recent currentTimestamp),
      addAllToHistorics s.historics
        (s.events.reverse.filter fun event => ¬ event.Recent currentTimestamp)⟩ := by
  have hloop := clearOldStatsBelow_eq currentTimestamp s.events [] s.historics
  rwa [List.append_nil, List.append_nil] at hloop

/-- **An event that is taken out is counted.** -/
theorem getTotalRequests_clearOldStats (s : Statistics) (currentTimestamp : Int)
    (memoryId : Int32) :
    (s.clearOldStats currentTimestamp).getTotalRequests memoryId = s.getTotalRequests memoryId := by
  rw [clearOldStats_eq, getTotalRequests, getTotalRequests, getHistoricRequests_addAllToHistorics]
  have hsplit := s.events.countP_eq_countP_filter_add (fun event => event.memory = memoryId)
    fun event => event.Recent currentTimestamp
  simp only [List.filter_reverse, List.countP_reverse, decide_not] at hsplit ⊢
  omega

theorem getTotalRequestsOverall_clearOldStats (s : Statistics) (currentTimestamp : Int)
    (memories : List Int32) :
    (s.clearOldStats currentTimestamp).getTotalRequestsOverall memories
      = s.getTotalRequestsOverall memories := by
  unfold getTotalRequestsOverall
  simp only [getTotalRequests_clearOldStats]

end Statistics

/-! ## Runs -/

/-- What happens to the statistics. -/
inductive StatisticsAction where
  /-- `list_add(g_stats_events, event)`. -/
  | record (event : Stats)
  | clear (currentTimestamp : Int)

def Statistics.step (s : Statistics) : StatisticsAction → Statistics
  | .record event => { s with events := s.events ++ [event] }
  | .clear currentTimestamp => s.clearOldStats currentTimestamp

/-- What is there after these actions. -/
def Statistics.after (actions : List StatisticsAction) : Statistics :=
  actions.foldl Statistics.step ⟨[], []⟩

/-- The events that the actions have recorded. -/
def recordedEvents (actions : List StatisticsAction) : List Stats :=
  actions.filterMap fun
    | .record event => some event
    | .clear _ => none

namespace Statistics

/-- A recorded event counts for its memory, and a clear changes nothing. -/
theorem getTotalRequests_step (s : Statistics) (action : StatisticsAction) (memoryId : Int32) :
    (s.step action).getTotalRequests memoryId = s.getTotalRequests memoryId
      + (recordedEvents [action]).countP fun event => event.memory = memoryId := by
  cases action with
  | record event =>
    have hrecorded : recordedEvents [.record event] = [event] := rfl
    rw [hrecorded, getTotalRequests, getTotalRequests, step]
    dsimp only
    rw [List.countP_append]
    omega
  | clear currentTimestamp =>
    have hrecorded : recordedEvents [.clear currentTimestamp] = [] := rfl
    rw [hrecorded, step, getTotalRequests_clearOldStats]
    exact (Int.add_zero _).symm

theorem getTotalRequests_after (actions : List StatisticsAction) (memoryId : Int32) :
    (after actions).getTotalRequests memoryId
      = (recordedEvents actions).countP fun event => event.memory = memoryId := by
  have hrun : ∀ s : Statistics, (actions.foldl step s).getTotalRequests memoryId
      = s.getTotalRequests memoryId
        + (recordedEvents actions).countP fun event => event.memory = memoryId := by
    induction actions with
    | nil => simp [recordedEvents]
    | cons action rest ih =>
      intro s
      have happend : recordedEvents (action :: rest)
          = recordedEvents [action] ++ recordedEvents rest := by
        rw [recordedEvents, ← List.singleton_append, List.filterMap_append]
        rfl
      rw [List.foldl_cons, ih, getTotalRequests_step, happend, List.countP_append]
      omega
  have hempty : getTotalRequests ⟨[], []⟩ memoryId = 0 := rfl
  rw [after, hrun, hempty, Int.zero_add]

end Statistics

/-- **Old events are not lost.**  `clear_old_stats` keeps the events that are at most 30 seconds
away in their order, and changes no total; so the requests of a memory are the events that were
recorded for it, whenever the old ones were cleared. -/
theorem requests_conserved {s : Statistics} (h : (s.historics.map Historic.memoryId).Nodup)
    (currentTimestamp : Int) :
    (s.clearOldStats currentTimestamp).events = s.events.filter (Stats.Recent currentTimestamp) ∧
      ((s.clearOldStats currentTimestamp).historics.map Historic.memoryId).Nodup ∧
      (∀ memoryId, (s.clearOldStats currentTimestamp).getTotalRequests memoryId
        = s.getTotalRequests memoryId) ∧
      ∀ actions memoryId, (Statistics.after actions).getTotalRequests memoryId
        = (recordedEvents actions).countP fun event => event.memory = memoryId := by
  refine ⟨?_, ?_, s.getTotalRequests_clearOldStats currentTimestamp,
    Statistics.getTotalRequests_after⟩
  · rw [Statistics.clearOldStats_eq]
  · rw [Statistics.clearOldStats_eq]
    exact nodup_addAllToHistorics h _

/-- Memory 1 has an event that is too old and one that is not. -/
theorem requests_conserved_two :
    let s : Statistics := ⟨[⟨0, 1⟩, ⟨30000, 1⟩, ⟨500, 2⟩], [⟨2, 5⟩]⟩
    s.clearOldStats 30001 = ⟨[⟨30000, 1⟩, ⟨500, 2⟩], [⟨2, 5⟩, ⟨1, 1⟩]⟩ ∧
      (s.clearOldStats 30001).getTotalRequests 1 = 2 := by
  intro s
  have hnodup : (s.historics.map Historic.memoryId).Nodup := by decide
  refine ⟨by decide, ?_⟩
  rw [(requests_conserved hnodup 30001).2.2.1]
  decide

end Lissandra
