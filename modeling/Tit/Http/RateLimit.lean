/-
# Http.RateLimit -- how often a peer may try

The limiter of logins keeps for each peer the times of its attempts that are not older than the
window, and no more peers than it may.  What it decides is what the log of the attempts it allowed
decides (`refuses`): the two take the same steps in every run whose times do not go backwards
(`allowed_eq_logged`).  What holds of the limiter is then read off the log.
-/
import Mathlib.Data.List.Dedup
import Mathlib.Data.List.Nodup
import Mathlib.Data.List.Perm.Subperm

namespace Tit.Http

set_option autoImplicit false

/-! ## The limiter -/

/-- The times are those of `Instant`, in nanoseconds; the table has each key once. -/
structure AttemptLimiter (K : Type) where
  maximum : Nat
  window : Nat
  maximumKeys : Nat
  attempts : List (K × List Nat)
  distinct : (attempts.map Prod.fst).Nodup

section Limiter

variable {K : Type} [DecidableEq K]

def AttemptLimiter.new (maximum window maximumKeys : Nat) : AttemptLimiter K where
  maximum
  window
  maximumKeys
  attempts := []
  distinct := List.nodup_nil

/-- Drop the attempts from the front that are as old as the window. -/
def expire (window now : Nat) (times : List Nat) : List Nat :=
  times.dropWhile fun attempt => decide (window ≤ now - attempt)

/-- `HashMap::retain`, which drops a key once its times are gone. -/
def retain (window now : Nat) (attempts : List (K × List Nat)) : List (K × List Nat) :=
  (attempts.map fun entry => (entry.1, expire window now entry.2)).filter fun entry => entry.2 ≠ []

def AttemptLimiter.retained (limiter : AttemptLimiter K) (now : Nat) : AttemptLimiter K :=
  { limiter with
    attempts := retain limiter.window now limiter.attempts
    distinct := by
      have sub : ((retain limiter.window now limiter.attempts).map Prod.fst).Sublist
          (limiter.attempts.map Prod.fst) := by
        have keys : limiter.attempts.map Prod.fst = (limiter.attempts.map fun entry =>
            (entry.1, expire limiter.window now entry.2)).map Prod.fst := by
          rw [List.map_map]
          rfl
        rw [keys]
        exact List.filter_sublist.map _
      exact limiter.distinct.sublist sub }

/-- The times of a key, none when the table does not have it. -/
def timesOf (attempts : List (K × List Nat)) (key : K) : List Nat :=
  (attempts.lookup key).getD []

/-- Give the key these times, which it has from now on. -/
def AttemptLimiter.set (limiter : AttemptLimiter K) (key : K) (times : List Nat) :
    AttemptLimiter K :=
  { limiter with
    attempts :=
      if key ∈ limiter.attempts.map Prod.fst then
        limiter.attempts.map fun entry => if entry.1 = key then (key, times) else entry
      else limiter.attempts ++ [(key, times)]
    distinct := by
      split
      · rename_i known
        have keys : (limiter.attempts.map fun entry =>
            if entry.1 = key then (key, times) else entry).map Prod.fst =
              limiter.attempts.map Prod.fst := by
          rw [List.map_map]
          refine List.map_congr_left fun entry _ => ?_
          rw [Function.comp_apply]
          split
          · rename_i here
            exact here.symm
          · rfl
        rw [keys]
        exact limiter.distinct
      · rename_i unknown
        rw [List.map_append, List.map_singleton]
        refine limiter.distinct.append (List.nodup_singleton key) ?_
        rw [List.disjoint_singleton]
        exact unknown }

/-- `allow`: the limiter afterwards, and whether the attempt is let in. -/
def AttemptLimiter.allow (limiter : AttemptLimiter K) (key : K) (now : Nat) :
    AttemptLimiter K × Bool :=
  let limiter := limiter.retained now
  if key ∉ limiter.attempts.map Prod.fst ∧ limiter.maximumKeys ≤ limiter.attempts.length then
    (limiter, false)
  else
    let times := timesOf limiter.attempts key
    if limiter.maximum ≤ times.length then (limiter.set key times, false)
    else (limiter.set key (times ++ [now]), true)

/-- The limiter after these calls. -/
def AttemptLimiter.after (limiter : AttemptLimiter K) (calls : List (K × Nat)) :
    AttemptLimiter K :=
  calls.foldl (fun limiter call => (limiter.allow call.1 call.2).1) limiter

/-- The calls that were let in. -/
def AttemptLimiter.allowed (limiter : AttemptLimiter K) : List (K × Nat) → List (K × Nat)
  | [] => []
  | call :: calls =>
      let later := (limiter.allow call.1 call.2).1.allowed calls
      if (limiter.allow call.1 call.2).2 then call :: later else later

/-! ## The log -/

/-- The attempt is within the window that ends now. -/
def isRecent (window now : Nat) (call : K × Nat) : Bool := decide (now - call.2 < window)

/-- How often the key was let in within the window. -/
def recent (window now : Nat) (log : List (K × Nat)) (key : K) : Nat :=
  log.countP fun call => decide (call.1 = key) && isRecent window now call

/-- The keys that were let in within the window. -/
def busy (window now : Nat) (log : List (K × Nat)) : List K :=
  ((log.filter (isRecent window now)).map Prod.fst).dedup

/-- What an attempt is refused for: the key has all its attempts, or it has none and there is no
room for another key. -/
def Refused (maximum window maximumKeys : Nat) (log : List (K × Nat)) (call : K × Nat) : Prop :=
  recent window call.2 log call.1 = maximum ∨
    recent window call.2 log call.1 = 0 ∧ (busy window call.2 log).length = maximumKeys

instance (maximum window maximumKeys : Nat) (log : List (K × Nat)) (call : K × Nat) :
    Decidable (Refused maximum window maximumKeys log call) :=
  inferInstanceAs (Decidable (_ ∨ _ ∧ _))

/-- The calls that the log lets in. -/
def logged (maximum window maximumKeys : Nat) : List (K × Nat) → List (K × Nat) → List (K × Nat)
  | _, [] => []
  | log, call :: calls =>
      if Refused maximum window maximumKeys log call then
        logged maximum window maximumKeys log calls
      else call :: logged maximum window maximumKeys (log ++ [call]) calls

/-- No key is let in more often than it may, in any window. -/
def Bounded (maximum window : Nat) (log : List (K × Nat)) : Prop :=
  ∀ key start,
    log.countP (fun call => decide (call.1 = key ∧ start ≤ call.2 ∧ call.2 < start + window)) ≤
      maximum

/-! ## The table -/

section Table

variable {attempts : List (K × List Nat)} {times : List Nat} {key : K} {window now : Nat}

/-- The attempts that are not as old as the window. -/
def fresh (window now : Nat) (times : List Nat) : List Nat :=
  times.filter fun attempt => decide (now - attempt < window)

theorem expire_eq_fresh (ordered : times.Pairwise (· ≤ ·)) :
    expire window now times = fresh window now times := by
  unfold expire fresh
  induction times with
  | nil => rfl
  | cons attempt times ih =>
      rw [List.pairwise_cons] at ordered
      by_cases old : window ≤ now - attempt
      · rw [List.dropWhile_cons, if_pos (decide_eq_true old), ih ordered.2, List.filter_cons_of_neg]
        rw [decide_eq_true_eq]
        omega
      · have all : ∀ later ∈ attempt :: times, now - later < window := by
          intro later member
          rcases List.mem_cons.mp member with rfl | inside
          · omega
          · have := ordered.1 later inside
            omega
        rw [List.dropWhile_cons, if_neg fun gone => old (of_decide_eq_true gone)]
        exact (List.filter_eq_self.mpr fun later member => decide_eq_true (all later member)).symm

theorem fresh_fresh {later : Nat} (order : now ≤ later) :
    fresh window later (fresh window now times) = fresh window later times := by
  unfold fresh
  rw [List.filter_filter]
  refine List.filter_congr fun attempt _ => ?_
  rw [← Bool.decide_and]
  refine decide_eq_decide.mpr ⟨fun both => both.1, fun young => ⟨young, by omega⟩⟩

@[simp] theorem timesOf_nil : timesOf [] key = [] := rfl

theorem timesOf_cons (entry : K × List Nat) :
    timesOf (entry :: attempts) key = if key = entry.1 then entry.2 else timesOf attempts key := by
  unfold timesOf
  rw [List.lookup_cons]
  by_cases same : key = entry.1
  · simp [same]
  · rw [if_neg same, beq_false_of_ne same]

theorem timesOf_of_notMem (unknown : key ∉ attempts.map Prod.fst) : timesOf attempts key = [] := by
  induction attempts with
  | nil => rfl
  | cons entry attempts ih =>
      rw [List.map_cons, List.mem_cons, not_or] at unknown
      rw [timesOf_cons, if_neg unknown.1]
      exact ih unknown.2

theorem timesOf_retain (distinct : (attempts.map Prod.fst).Nodup) :
    timesOf (retain window now attempts) key = expire window now (timesOf attempts key) := by
  induction attempts with
  | nil => rfl
  | cons entry attempts ih =>
      rw [List.map_cons, List.nodup_cons] at distinct
      have rest := ih distinct.2
      by_cases gone : expire window now entry.2 = []
      · have dropped : retain window now (entry :: attempts) = retain window now attempts := by
          simp [retain, gone]
        rw [dropped, rest, timesOf_cons]
        by_cases same : key = entry.1
        · rw [if_pos same, gone, timesOf_of_notMem (same ▸ distinct.1)]
          rfl
        · rw [if_neg same]
      · have kept : retain window now (entry :: attempts) =
            (entry.1, expire window now entry.2) :: retain window now attempts := by
          simp [retain, gone]
        rw [kept, timesOf_cons, timesOf_cons, rest]
        split
        · rfl
        · rfl

/-- A key that is left has a time that is left. -/
theorem mem_keys_retain (distinct : (attempts.map Prod.fst).Nodup) :
    key ∈ (retain window now attempts).map Prod.fst ↔
      expire window now (timesOf attempts key) ≠ [] := by
  rw [← timesOf_retain distinct]
  have some : ∀ entry ∈ retain window now attempts, entry.2 ≠ [] := fun entry member =>
    of_decide_eq_true (List.mem_filter.mp member).2
  generalize retain window now attempts = kept at some ⊢
  induction kept with
  | nil => simp
  | cons entry kept ih =>
      rw [List.map_cons, List.mem_cons, timesOf_cons]
      by_cases same : key = entry.1
      · rw [if_pos same]
        exact ⟨fun _ => some entry List.mem_cons_self, fun _ => .inl same⟩
      · rw [if_neg same, or_iff_right same]
        exact ih fun e member => some e (List.mem_cons_of_mem _ member)

theorem timesOf_replace_ne {k : K} (other : k ≠ key) :
    timesOf (attempts.map fun entry => if entry.1 = key then (key, times) else entry) k =
      timesOf attempts k := by
  induction attempts with
  | nil => rfl
  | cons entry attempts ih =>
      rw [List.map_cons, timesOf_cons, timesOf_cons, ih]
      by_cases here : entry.1 = key
      · rw [if_pos here, if_neg other, if_neg (here ▸ other)]
      · rw [if_neg here]

theorem timesOf_replace (known : key ∈ attempts.map Prod.fst) :
    timesOf (attempts.map fun entry => if entry.1 = key then (key, times) else entry) key =
      times := by
  induction attempts with
  | nil => cases known
  | cons entry attempts ih =>
      rw [List.map_cons, timesOf_cons]
      by_cases here : entry.1 = key
      · rw [if_pos here, if_pos rfl]
      · rw [if_neg here, if_neg (Ne.symm here)]
        rw [List.map_cons, List.mem_cons] at known
        exact ih (known.resolve_left (Ne.symm here))

theorem timesOf_append (unknown : key ∉ attempts.map Prod.fst) (k : K) :
    timesOf (attempts ++ [(key, times)]) k = if k = key then times else timesOf attempts k := by
  induction attempts with
  | nil => rw [List.nil_append, timesOf_cons]
  | cons entry attempts ih =>
      rw [List.map_cons, List.mem_cons, not_or] at unknown
      rw [List.cons_append, timesOf_cons, timesOf_cons, ih unknown.2]
      by_cases here : k = entry.1
      · rw [if_pos here, if_pos here, if_neg (here ▸ Ne.symm unknown.1)]
      · rw [if_neg here, if_neg here]

theorem timesOf_set (limiter : AttemptLimiter K) (k : K) :
    timesOf (limiter.set key times).attempts k =
      if k = key then times else timesOf limiter.attempts k := by
  show timesOf (if key ∈ limiter.attempts.map Prod.fst then
      limiter.attempts.map fun entry => if entry.1 = key then (key, times) else entry
    else limiter.attempts ++ [(key, times)]) k = _
  by_cases known : key ∈ limiter.attempts.map Prod.fst
  · rw [if_pos known]
    by_cases same : k = key
    · rw [if_pos same, same, timesOf_replace known]
    · rw [if_neg same, timesOf_replace_ne same]
  · rw [if_neg known, timesOf_append known]

/-- Setting the times of a key takes room only for a new key. -/
theorem length_set (limiter : AttemptLimiter K) :
    (limiter.set key times).attempts.length =
      if key ∈ limiter.attempts.map Prod.fst then limiter.attempts.length
      else limiter.attempts.length + 1 := by
  show (if key ∈ limiter.attempts.map Prod.fst then
      limiter.attempts.map fun entry => if entry.1 = key then (key, times) else entry
    else limiter.attempts ++ [(key, times)]).length = _
  split
  · exact List.length_map _
  · rw [List.length_append, List.length_singleton]

end Table

/-! ## The limiter follows the log -/

section Tracks

variable {limiter : AttemptLimiter K} {log : List (K × Nat)} {last now : Nat} {key : K}

/-- The limiter has for each key the times of the log, but for those that are too old. -/
structure Tracks (limiter : AttemptLimiter K) (log : List (K × Nat)) (last : Nat) : Prop where
  times : ∀ key now, last ≤ now → fresh limiter.window now (timesOf limiter.attempts key) =
    fresh limiter.window now ((log.filter fun call => decide (call.1 = key)).map Prod.snd)
  ordered : ∀ key, (timesOf limiter.attempts key).Pairwise (· ≤ ·)
  past : ∀ key, ∀ attempt ∈ timesOf limiter.attempts key, attempt ≤ last
  few : limiter.attempts.length ≤ limiter.maximumKeys
  bounded : Bounded limiter.maximum limiter.window log

theorem recent_eq_length (window : Nat) :
    recent window now log key =
      (fresh window now ((log.filter fun call => decide (call.1 = key)).map Prod.snd)).length := by
  unfold recent fresh
  rw [List.filter_map, List.length_map, List.filter_filter, List.countP_eq_length_filter]
  congr 1
  refine List.filter_congr fun call _ => ?_
  rw [Bool.and_comm]
  rfl

theorem mem_busy (window : Nat) : key ∈ busy window now log ↔ recent window now log key ≠ 0 := by
  unfold busy recent
  rw [List.mem_dedup, List.mem_map, ne_eq, List.countP_eq_zero]
  push Not
  refine exists_congr fun call => ?_
  rw [List.mem_filter, Bool.and_eq_true, decide_eq_true_eq]
  exact ⟨fun ⟨⟨member, young⟩, same⟩ => ⟨member, same, young⟩,
    fun ⟨member, same, young⟩ => ⟨⟨member, young⟩, same⟩⟩

/-- After the old attempts are dropped, the table is what the log says of the window. -/
theorem Tracks.retained (tracks : Tracks limiter log last) (order : last ≤ now) :
    Tracks (limiter.retained now) log now := by
  have kept : ∀ key, timesOf (limiter.retained now).attempts key =
      fresh limiter.window now (timesOf limiter.attempts key) := fun key =>
    (timesOf_retain limiter.distinct).trans (expire_eq_fresh (tracks.ordered key))
  refine ⟨fun key later after => ?_, fun key => ?_, fun key attempt member => ?_, ?_,
    tracks.bounded⟩
  · rw [kept, show (limiter.retained now).window = limiter.window from rfl, fresh_fresh after]
    exact tracks.times key later (by omega)
  · rw [kept]
    exact (tracks.ordered key).sublist List.filter_sublist
  · rw [kept] at member
    have := tracks.past key attempt (List.mem_filter.mp member).1
    omega
  · refine Nat.le_trans ?_ tracks.few
    exact Nat.le_trans (List.length_filter_le _ _) (Nat.le_of_eq (List.length_map _))

variable (key) in
theorem Tracks.length_timesOf (tracks : Tracks limiter log last) (order : last ≤ now) :
    (timesOf (limiter.retained now).attempts key).length =
      recent limiter.window now log key := by
  rw [recent_eq_length, ← tracks.times key now order]
  exact congrArg List.length
    ((timesOf_retain limiter.distinct).trans (expire_eq_fresh (tracks.ordered key)))

variable (key) in
theorem Tracks.mem_keys (tracks : Tracks limiter log last) (order : last ≤ now) :
    key ∈ (limiter.retained now).attempts.map Prod.fst ↔ recent limiter.window now log key ≠ 0 := by
  rw [← tracks.length_timesOf key order, ne_eq, List.length_eq_zero_iff]
  exact (mem_keys_retain limiter.distinct).trans
    (not_congr (by rw [← timesOf_retain limiter.distinct]; exact Iff.rfl))

theorem Tracks.length_keys (tracks : Tracks limiter log last) (order : last ≤ now) :
    (limiter.retained now).attempts.length = (busy limiter.window now log).length := by
  rw [← List.length_map Prod.fst]
  refine ((List.perm_ext_iff_of_nodup (limiter.retained now).distinct (List.nodup_dedup _)).mpr
    fun key => ?_).length_eq
  rw [tracks.mem_keys key order]
  exact (mem_busy _).symm

/-! The bound on a window. -/

variable (key) in
theorem Bounded.recent_le {maximum window : Nat} (bounded : Bounded maximum window log)
    (past : ∀ call ∈ log, call.2 ≤ now) : recent window now log key ≤ maximum := by
  refine Nat.le_trans ?_ (bounded key (now + 1 - window))
  refine List.countP_mono_left fun call member young => ?_
  rw [Bool.and_eq_true, decide_eq_true_eq, isRecent, decide_eq_true_eq] at young
  have := past call member
  exact decide_eq_true ⟨young.1, by omega, by omega⟩

theorem Bounded.allow {maximum window : Nat} (bounded : Bounded maximum window log)
    (past : ∀ call ∈ log, call.2 ≤ now) (room : recent window now log key < maximum) :
    Bounded maximum window (log ++ [(key, now)]) := by
  intro other start
  rw [List.countP_append, List.countP_singleton]
  split
  · rename_i inside
    obtain ⟨rfl, from', until'⟩ := of_decide_eq_true inside
    refine Nat.le_trans (Nat.add_le_add_right ?_ 1) room
    refine List.countP_mono_left fun call member within => ?_
    obtain ⟨same, start', -⟩ := of_decide_eq_true within
    have := past call member
    rw [Bool.and_eq_true, decide_eq_true_eq, isRecent, decide_eq_true_eq]
    exact ⟨same, by omega⟩
  · exact bounded other start

/-! One call. -/

theorem Tracks.set (tracks : Tracks limiter log now) {log' : List (K × Nat)} {times : List Nat}
    (room : key ∈ limiter.attempts.map Prod.fst ∨ limiter.attempts.length < limiter.maximumKeys)
    (same : ∀ later, now ≤ later → fresh limiter.window later times =
      fresh limiter.window later ((log'.filter fun call => decide (call.1 = key)).map Prod.snd))
    (others : ∀ other, other ≠ key → (log'.filter fun call => decide (call.1 = other)) =
      log.filter fun call => decide (call.1 = other))
    (ordered : times.Pairwise (· ≤ ·)) (past : ∀ attempt ∈ times, attempt ≤ now)
    (bounded : Bounded limiter.maximum limiter.window log') :
    Tracks (limiter.set key times) log' now := by
  refine ⟨fun other later after => ?_, fun other => ?_, fun other => ?_, ?_, bounded⟩
  · rw [timesOf_set]
    split
    · rename_i here
      rw [here]
      exact same later after
    · rename_i apart
      rw [others other apart]
      exact tracks.times other later after
  · rw [timesOf_set]
    split
    · exact ordered
    · exact tracks.ordered other
  · rw [timesOf_set]
    split
    · exact past
    · exact tracks.past other
  · have few : limiter.attempts.length ≤ limiter.maximumKeys := tracks.few
    rw [length_set]
    split
    · exact few
    · rename_i unknown
      exact room.resolve_left unknown

variable (key) in
/-- **The limiter refuses what the log refuses**, and goes on to follow the log. -/
theorem Tracks.allow (tracks : Tracks limiter log last) (order : last ≤ now)
    (past : ∀ call ∈ log, call.2 ≤ last) :
    if Refused limiter.maximum limiter.window limiter.maximumKeys log (key, now) then
      (limiter.allow key now).2 = false ∧ Tracks (limiter.allow key now).1 log now
    else
      (limiter.allow key now).2 = true ∧
        Tracks (limiter.allow key now).1 (log ++ [(key, now)]) now := by
  have here := tracks.retained order
  have length := tracks.length_timesOf key order
  have known := tracks.mem_keys key order
  have keys := tracks.length_keys order
  have past' : ∀ call ∈ log, call.2 ≤ now := fun call member => Nat.le_trans (past call member) order
  have most := tracks.bounded.recent_le key past'
  have few : (limiter.retained now).attempts.length ≤ limiter.maximumKeys := here.few
  by_cases full : key ∉ (limiter.retained now).attempts.map Prod.fst ∧
      limiter.maximumKeys ≤ (limiter.retained now).attempts.length
  · have result : limiter.allow key now = (limiter.retained now, false) := if_pos full
    have none : recent limiter.window now log key = 0 := not_not.mp fun some => full.1 (known.mpr some)
    have many : (busy limiter.window now log).length = limiter.maximumKeys := by
      rw [← keys]
      exact Nat.le_antisymm few full.2
    rw [if_pos (.inr ⟨none, many⟩), result]
    exact ⟨rfl, here⟩
  · have room : key ∈ (limiter.retained now).attempts.map Prod.fst ∨
        (limiter.retained now).attempts.length < limiter.maximumKeys := by
      by_cases inside : key ∈ (limiter.retained now).attempts.map Prod.fst
      · exact .inl inside
      · exact .inr (Nat.lt_of_not_le fun many => full ⟨inside, many⟩)
    by_cases spent : limiter.maximum ≤ (timesOf (limiter.retained now).attempts key).length
    · have result : limiter.allow key now =
          ((limiter.retained now).set key (timesOf (limiter.retained now).attempts key), false) :=
        (if_neg full).trans (if_pos spent)
      rw [if_pos (.inl (Nat.le_antisymm most (length ▸ spent))), result]
      exact ⟨rfl, here.set room (here.times key) (fun _ _ => rfl) (here.ordered key) (here.past key)
        here.bounded⟩
    · have result : limiter.allow key now =
          ((limiter.retained now).set key (timesOf (limiter.retained now).attempts key ++ [now]),
            true) :=
        (if_neg full).trans (if_neg spent)
      have allowed : ¬Refused limiter.maximum limiter.window limiter.maximumKeys log (key, now) := by
        rintro (all | ⟨none, many⟩)
        · exact spent (Nat.le_of_eq (length.trans all).symm)
        · have unknown := fun inside => known.mp inside none
          exact absurd (room.resolve_left unknown) (by rw [keys, many]; exact Nat.lt_irrefl _)
      rw [if_neg allowed, result]
      refine ⟨rfl, here.set room (fun later after => ?_) (fun other apart => ?_) ?_ ?_ ?_⟩
      · have before := here.times key later after
        have last : ((log ++ [(key, now)]).filter fun call => decide (call.1 = key)).map Prod.snd =
            (log.filter fun call => decide (call.1 = key)).map Prod.snd ++ [now] := by
          simp
        unfold fresh at before ⊢
        rw [last, List.filter_append, List.filter_append, before]
      · rw [List.filter_append, List.filter_cons_of_neg, List.filter_nil, List.append_nil]
        rw [decide_eq_true_eq]
        exact Ne.symm apart
      · refine List.pairwise_append.mpr ⟨here.ordered key, List.pairwise_singleton _ _, ?_⟩
        intro attempt member later single
        rw [List.mem_singleton.mp single]
        exact here.past key attempt member
      · intro attempt member
        rcases List.mem_append.mp member with before | single
        · exact here.past key attempt before
        · exact Nat.le_of_eq (List.mem_singleton.mp single)
      · exact tracks.bounded.allow past' (by rw [← length]; omega)

/-! Runs. -/

theorem allow_settings (limiter : AttemptLimiter K) (key : K) (now : Nat) :
    (limiter.allow key now).1.maximum = limiter.maximum ∧
      (limiter.allow key now).1.window = limiter.window ∧
      (limiter.allow key now).1.maximumKeys = limiter.maximumKeys := by
  unfold AttemptLimiter.allow
  simp only
  split
  · exact ⟨rfl, rfl, rfl⟩
  · split
    · exact ⟨rfl, rfl, rfl⟩
    · exact ⟨rfl, rfl, rfl⟩

theorem after_settings (limiter : AttemptLimiter K) (calls : List (K × Nat)) :
    (limiter.after calls).maximum = limiter.maximum ∧
      (limiter.after calls).window = limiter.window ∧
      (limiter.after calls).maximumKeys = limiter.maximumKeys := by
  induction calls generalizing limiter with
  | nil => exact ⟨rfl, rfl, rfl⟩
  | cons call calls ih =>
      obtain ⟨maximum, window, maximumKeys⟩ := allow_settings limiter call.1 call.2
      obtain ⟨maximum', window', maximumKeys'⟩ := ih (limiter.allow call.1 call.2).1
      exact ⟨maximum'.trans maximum, window'.trans window, maximumKeys'.trans maximumKeys⟩

/-- The limiter lets in what the log does, and follows it to the end. -/
theorem Tracks.run (tracks : Tracks limiter log last) (past : ∀ call ∈ log, call.2 ≤ last)
    {calls : List (K × Nat)} (ordered : calls.Pairwise fun a b => a.2 ≤ b.2)
    (after : ∀ call ∈ calls, last ≤ call.2) :
    limiter.allowed calls =
        logged limiter.maximum limiter.window limiter.maximumKeys log calls ∧
      ∃ end', Tracks (limiter.after calls) (log ++ limiter.allowed calls) end' ∧
        (∀ call ∈ log ++ limiter.allowed calls, call.2 ≤ end') ∧
        ∀ now, last ≤ now → (∀ call ∈ calls, call.2 ≤ now) → end' ≤ now := by
  induction calls generalizing limiter log last with
  | nil =>
      refine ⟨rfl, last, ?_, ?_, fun now order _ => order⟩
      · rw [AttemptLimiter.allowed, List.append_nil]
        exact tracks
      · rw [AttemptLimiter.allowed, List.append_nil]
        exact past
  | cons call calls ih =>
      obtain ⟨key, now⟩ := call
      rw [List.pairwise_cons] at ordered
      have order : last ≤ now := after _ List.mem_cons_self
      have one := tracks.allow key order past
      obtain ⟨maximum, window, maximumKeys⟩ := allow_settings limiter key now
      split at one
      · rename_i refused
        obtain ⟨answer, next⟩ := one
        have past' : ∀ c ∈ log, c.2 ≤ now := fun c member => Nat.le_trans (past c member) order
        obtain ⟨same, end', follows, behind, latest⟩ := ih next past' ordered.2 ordered.1
        have skipped : limiter.allowed ((key, now) :: calls) =
            (limiter.allow key now).1.allowed calls := by
          rw [AttemptLimiter.allowed, answer]
          rfl
        rw [maximum, window, maximumKeys] at same
        rw [skipped, logged, if_pos refused]
        refine ⟨same, end', follows, behind, fun later _ all => ?_⟩
        rw [List.forall_mem_cons] at all
        exact latest later all.1 all.2
      · rename_i allowed
        obtain ⟨answer, next⟩ := one
        have past' : ∀ c ∈ log ++ [(key, now)], c.2 ≤ now := by
          intro c member
          rcases List.mem_append.mp member with before | single
          · exact Nat.le_trans (past c before) order
          · exact Nat.le_of_eq (congrArg Prod.snd (List.mem_singleton.mp single))
        obtain ⟨same, end', follows, behind, latest⟩ := ih next past' ordered.2 ordered.1
        have taken : limiter.allowed ((key, now) :: calls) =
            (key, now) :: (limiter.allow key now).1.allowed calls := by
          rw [AttemptLimiter.allowed, answer]
          rfl
        rw [maximum, window, maximumKeys] at same
        rw [List.append_assoc] at follows behind
        rw [taken, logged, if_neg allowed, same]
        rw [same] at follows behind
        refine ⟨rfl, end', follows, behind, fun later _ all => ?_⟩
        rw [List.forall_mem_cons] at all
        exact latest later all.1 all.2

theorem tracks_new (maximum window maximumKeys last : Nat) :
    Tracks (AttemptLimiter.new maximum window maximumKeys : AttemptLimiter K) [] last :=
  ⟨fun _ _ _ => rfl, fun _ => List.Pairwise.nil, fun _ _ member => absurd member List.not_mem_nil,
    Nat.zero_le _, fun _ _ => Nat.zero_le _⟩

/-- **A new limiter lets in what the log does.** -/
theorem allowed_eq_logged (maximum window maximumKeys : Nat) {calls : List (K × Nat)}
    (ordered : calls.Pairwise fun a b => a.2 ≤ b.2) :
    (AttemptLimiter.new maximum window maximumKeys).allowed calls =
      logged maximum window maximumKeys [] calls :=
  ((tracks_new maximum window maximumKeys 0).run nofun ordered fun _ _ => Nat.zero_le _).1

/-- A call that the log refuses leaves no trace in it. -/
theorem logged_drop {maximum window maximumKeys : Nat} {log before later : List (K × Nat)}
    {call : K × Nat} (refused : Refused maximum window maximumKeys
      (log ++ logged maximum window maximumKeys log before) call) :
    logged maximum window maximumKeys log (before ++ call :: later) =
      logged maximum window maximumKeys log (before ++ later) := by
  induction before generalizing log with
  | nil =>
      rw [logged, List.append_nil] at refused
      rw [List.nil_append, List.nil_append, logged, if_pos refused]
  | cons first before ih =>
      rw [logged] at refused
      rw [List.cons_append, List.cons_append, logged, logged]
      split at refused
      · rename_i skipped
        rw [if_pos skipped, if_pos skipped, ih refused]
      · rename_i taken
        rw [if_neg taken, if_neg taken, ih (by rwa [List.append_assoc])]

theorem allow_iff {maximum window maximumKeys : Nat} {calls : List (K × Nat)}
    (ordered : calls.Pairwise fun a b => a.2 ≤ b.2) (key : K) (now : Nat)
    (reached : ∀ call ∈ calls, call.2 ≤ now) :
    (((AttemptLimiter.new maximum window maximumKeys).after calls).allow key now).2 = false ↔
      Refused maximum window maximumKeys
        ((AttemptLimiter.new maximum window maximumKeys).allowed calls) (key, now) := by
  obtain ⟨-, end', follows, behind, latest⟩ := (tracks_new maximum window maximumKeys 0).run nofun
    ordered fun _ _ => Nat.zero_le _
  obtain ⟨maximum', window', maximumKeys'⟩ :=
    after_settings (AttemptLimiter.new maximum window maximumKeys) calls
  have one := follows.allow key (latest now (Nat.zero_le _) reached) behind
  rw [maximum', window', maximumKeys', List.nil_append] at one
  split at one
  · rename_i refused
    exact ⟨fun _ => refused, fun _ => one.1⟩
  · rename_i allowed
    rw [one.1]
    exact ⟨nofun, fun refused => absurd refused allowed⟩

/-- **What a limiter promises**, for every run of calls in the order of their times. -/
theorem allow_spec (maximum window maximumKeys : Nat) (calls : List (K × Nat))
    (ordered : calls.Pairwise fun a b => a.2 ≤ b.2) :
    Bounded maximum window ((AttemptLimiter.new maximum window maximumKeys).allowed calls) ∧
      ((AttemptLimiter.new maximum window maximumKeys).after calls).attempts.length ≤ maximumKeys ∧
      (∀ key now, (∀ call ∈ calls, call.2 ≤ now) →
        ((((AttemptLimiter.new maximum window maximumKeys).after calls).allow key now).2 = false ↔
          Refused maximum window maximumKeys
            ((AttemptLimiter.new maximum window maximumKeys).allowed calls) (key, now))) ∧
      ∀ before call later, calls = before ++ call :: later →
        (((AttemptLimiter.new maximum window maximumKeys).after before).allow call.1 call.2).2 =
          false →
        (AttemptLimiter.new maximum window maximumKeys).allowed (before ++ later) =
          (AttemptLimiter.new maximum window maximumKeys).allowed calls := by
  obtain ⟨maximum', window', maximumKeys'⟩ :=
    after_settings (AttemptLimiter.new maximum window maximumKeys) calls
  obtain ⟨-, end', follows, -, -⟩ := (tracks_new maximum window maximumKeys 0).run nofun ordered
    fun _ _ => Nat.zero_le _
  have bounded := follows.bounded
  have few := follows.few
  rw [maximum', window'] at bounded
  rw [maximumKeys'] at few
  refine ⟨bounded, few, allow_iff ordered, ?_⟩
  rintro before call later rfl refused
  have front : before.Pairwise fun a b => a.2 ≤ b.2 := (List.pairwise_append.mp ordered).1
  have rest : (before ++ later).Pairwise fun a b => a.2 ≤ b.2 :=
    ordered.sublist (List.Sublist.append (List.Sublist.refl _) (List.sublist_cons_self _ _))
  have reached : ∀ c ∈ before, c.2 ≤ call.2 := fun c member =>
    (List.pairwise_append.mp ordered).2.2 c member call List.mem_cons_self
  have log := (allow_iff front call.1 call.2 reached).mp refused
  rw [allowed_eq_logged maximum window maximumKeys front] at log
  rw [allowed_eq_logged maximum window maximumKeys rest,
    allowed_eq_logged maximum window maximumKeys ordered]
  exact (@logged_drop K _ maximum window maximumKeys [] _ _ _ log).symm

/-- The limiter of the tests: the third attempt of a peer is refused, and so is the third peer. -/
theorem third_refused :
    (AttemptLimiter.new 2 60 2).allowed [(1, 0), (1, 0), (1, 0), (2, 0), (3, 0)] =
        [(1, 0), (1, 0), (2, 0)] ∧
      Bounded 2 60 ((AttemptLimiter.new 2 60 2).allowed [(1, 0), (1, 0), (1, 0), (2, 0), (3, 0)]) :=
  ⟨by decide, (allow_spec 2 60 2 [(1, 0), (1, 0), (1, 0), (2, 0), (3, 0)] (by decide)).1⟩

end Tracks

end Limiter

end Tit.Http
