/-
# Theory.Routes -- paths matched against routes

A route is a pattern of segments with a value.  `find` walks the segments of a path through all
routes at once: it prefers a static segment to a parameter and a parameter to the rest of a path,
and comes back to the next choice when the preferred one leads nowhere.

What a path with unknown segments can match is decided by `couldMatch` on the patterns alone;
`find_none` and `find_param` then say where an unknown segment goes.
-/
import Mathlib.Data.List.Forall2

namespace Tit.Theory.Routes

set_option autoImplicit false

universe u

inductive Segment where
  | static (text : String)
  | param (name : String)
  | rest (name : String)
  deriving DecidableEq, Repr

variable {α : Type u}

/-- The segments of an absolute path. -/
def segments (path : String) : List String := (path.toList.splitOn '/').tail.map String.ofList

def Segment.isParam : Segment → Bool
  | .param _ => true
  | _ => false

def Segment.isRest : Segment → Bool
  | .rest _ => true
  | _ => false

/-- The routes whose first segment passes, behind that segment. -/
def advance (passes : Segment → Bool) (routes : List (List Segment × α)) :
    List (List Segment × α) :=
  routes.filterMap fun route =>
    match route.1 with
    | [] => none
    | segment :: pattern => if passes segment then some (pattern, route.2) else none

/-- The value of the preferred route of a path, with the values of its parameters. -/
def find : List String → List (List Segment × α) → Option (α × List String)
  | [], routes => (routes.find? fun route => route.1.isEmpty).map fun route => (route.2, [])
  | s :: path, routes =>
      (find path (advance (fun segment => segment == .static s) routes)).or
        (if s = "" then none
        else
          ((find path (advance Segment.isParam routes)).map fun found =>
            (found.1, s :: found.2)).or
            ((routes.find? fun route => route.1.length == 1 && route.1.all Segment.isRest).map
              fun route => (route.2, ["/".intercalate (s :: path)])))

/-! ## What a path can match -/

inductive Matches : List Segment → List String → Prop where
  | nil : Matches [] []
  | static {s : String} {pattern : List Segment} {path : List String}
      (later : Matches pattern path) : Matches (.static s :: pattern) (s :: path)
  | param {name s : String} {pattern : List Segment} {path : List String}
      (later : Matches pattern path) : Matches (.param name :: pattern) (s :: path)
  | rest {name s : String} {path : List String} : Matches [.rest name] (s :: path)

/-- The pattern matches a path of which some segments are unknown. -/
def couldMatch : List Segment → List (Option String) → Bool
  | [], [] => true
  | .static text :: pattern, s :: path => s.all (· == text) && couldMatch pattern path
  | .param _ :: pattern, _ :: path => couldMatch pattern path
  | [.rest _], _ :: _ => true
  | _, _ => false

section Matching

variable {s : String} {path : List String} {pattern : List Segment} {value : α}
  {routes : List (List Segment × α)} {params : List String}

theorem mem_advance {passes : Segment → Bool} :
    (pattern, value) ∈ advance passes routes ↔
      ∃ segment, (segment :: pattern, value) ∈ routes ∧ passes segment = true := by
  unfold advance
  rw [List.mem_filterMap]
  constructor
  · rintro ⟨⟨_ | ⟨segment, pattern'⟩, value'⟩, member, advanced⟩
    · cases advanced
    · simp only at advanced
      split at advanced
      · cases advanced
        exact ⟨segment, member, ‹_›⟩
      · cases advanced
  · rintro ⟨segment, member, passed⟩
    exact ⟨_, member, if_pos passed⟩

/-- What is found belongs to a route that matches. -/
theorem find_sound (found : find path routes = some (value, params)) :
    ∃ pattern, (pattern, value) ∈ routes ∧ Matches pattern path := by
  induction path generalizing routes params with
  | nil =>
      obtain ⟨route, first, same⟩ := Option.map_eq_some_iff.mp found
      cases same
      have empty : route.1 = [] := by
        have := List.find?_some first
        exact List.isEmpty_iff.mp this
      exact ⟨route.1, List.mem_of_find?_eq_some first, empty ▸ .nil⟩
  | cons s path ih =>
      rcases Option.or_eq_some_iff.mp found with static | ⟨-, other⟩
      · obtain ⟨pattern, member, later⟩ := ih static
        obtain ⟨segment, member', passed⟩ := mem_advance.mp member
        rw [beq_iff_eq] at passed
        exact ⟨_, member', passed ▸ .static later⟩
      · split at other
        · cases other
        · rcases Option.or_eq_some_iff.mp other with param | ⟨-, rest⟩
          · obtain ⟨⟨value', params'⟩, inner, same⟩ := Option.map_eq_some_iff.mp param
            cases same
            obtain ⟨pattern, member, later⟩ := ih inner
            obtain ⟨segment, member', passed⟩ := mem_advance.mp member
            cases segment with
            | param name => exact ⟨_, member', .param later⟩
            | static | rest => cases passed
          · obtain ⟨⟨pattern, value'⟩, first, same⟩ := Option.map_eq_some_iff.mp rest
            cases same
            have whole := List.find?_some first
            rw [Bool.and_eq_true, beq_iff_eq, List.length_eq_one_iff] at whole
            obtain ⟨⟨segment, rfl⟩, all⟩ := whole
            cases segment with
            | rest name => exact ⟨_, List.mem_of_find?_eq_some first, .rest⟩
            | static | param => cases all

theorem couldMatch_of_matches {known : List (Option String)} (matches' : Matches pattern path)
    (agree : List.Forall₂ (fun o s => o.all (· == s) = true) known path) :
    couldMatch pattern known = true := by
  induction matches' generalizing known with
  | nil =>
      cases agree
      rfl
  | @static s _ _ _ ih =>
      cases agree with
      | cons first later =>
          show (_ && _) = true
          rw [ih later, Bool.and_true]
          exact first
  | param _ ih =>
      cases agree with
      | cons _ later => exact ih later
  | rest =>
      cases agree with
      | cons => rfl

theorem agree_some (path : List String) :
    List.Forall₂ (fun o s => o.all (· == s) = true) (path.map some) path := by
  induction path with
  | nil => exact .nil
  | cons s path ih => exact .cons (beq_self_eq_true s) ih

/-- No route can match. -/
theorem find_none {known : List (Option String)}
    (agree : List.Forall₂ (fun o s => o.all (· == s) = true) known path)
    (apart : ∀ route ∈ routes, couldMatch route.1 known = false) : find path routes = none := by
  cases found : find path routes with
  | none => rfl
  | some result =>
      obtain ⟨pattern, member, matches'⟩ := find_sound found
      have could := couldMatch_of_matches matches' agree
      rw [apart _ member] at could
      cases could

/-- The static first segments of the routes that can match what is known of the other segments. -/
def heads (known : List (Option String)) (routes : List (List Segment × α)) : List String :=
  routes.filterMap fun route =>
    match route.1 with
    | .static text :: pattern => if couldMatch pattern known then some text else none
    | _ => none

theorem mem_heads {known : List (Option String)} (member : (.static s :: pattern, value) ∈ routes)
    (could : couldMatch pattern known = true) : s ∈ heads known routes :=
  List.mem_filterMap.mpr ⟨_, member, if_pos could⟩

/-- A segment that is no such head leads no static route on. -/
theorem find_static_none {known : List (Option String)}
    (agree : List.Forall₂ (fun o s => o.all (· == s) = true) known path)
    (other : s ∉ heads known routes) :
    find path (advance (fun segment => segment == .static s) routes) = none := by
  apply find_none agree
  rintro ⟨pattern, value⟩ member
  obtain ⟨segment, member', passed⟩ := mem_advance.mp member
  rw [beq_iff_eq] at passed
  subst passed
  rw [Bool.eq_false_iff]
  exact fun could => other (mem_heads member' could)

/-- A segment that no static route leads on with is the value of a parameter. -/
theorem find_param (some : s ≠ "")
    (static : find path (advance (fun segment => segment == .static s) routes) = none)
    (found : find path (advance Segment.isParam routes) = .some (value, params)) :
    find (s :: path) routes = .some (value, s :: params) := by
  rw [find, static, found, Option.none_or, if_neg some]
  rfl

end Matching

/-! ## Paths as text -/

theorem segments_last {s : String} (plain : '/' ∉ s.toList) : segments ("/" ++ s) = [s] := by
  have text : ("/" ++ s).toList = [] ++ '/' :: s.toList := String.toList_append
  rw [segments, text, List.splitOn_append_cons_self_of_not_mem List.not_mem_nil,
    List.splitOn_eq_singleton plain, List.tail_cons, List.map_singleton, String.ofList_toList]

theorem segments_cons {s rest : String} (plain : '/' ∉ s.toList) :
    segments ("/" ++ s ++ "/" ++ rest) = s :: segments ("/" ++ rest) := by
  have slash : "/".toList = ['/'] := rfl
  have text : ("/" ++ s ++ "/" ++ rest).toList = [] ++ '/' :: (s.toList ++ '/' :: rest.toList) := by
    simp only [String.toList_append, slash, List.append_assoc, List.nil_append,
      List.cons_append]
  have text' : ("/" ++ rest).toList = [] ++ '/' :: rest.toList := String.toList_append
  rw [segments, segments, text, text', List.splitOn_append_cons_self_of_not_mem List.not_mem_nil,
    List.splitOn_append_cons_self_of_not_mem List.not_mem_nil,
    List.splitOn_append_cons_self_of_not_mem plain, List.tail_cons, List.tail_cons, List.map_cons,
    String.ofList_toList]

end Tit.Theory.Routes
