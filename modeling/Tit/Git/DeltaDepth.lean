/-
# Git.DeltaDepth -- how long the chains of deltas are

An entry of a pack is an object or a delta on another entry, which is named by its distance or by
its identifier.  `delta_depth` follows the bases of an entry up to one whose depth is known, and
then comes back and notes the depth of each entry on the way.

The table of depths only ever holds the lengths of chains that end and are within the limit
(`Sound`).  Whatever it holds, an entry is accepted exactly when its own chain is such a one
(`deltaDepth_iff`), so that a pack is accepted in one order of its entries as in another
(`validateDeltaDepth_iff`).
-/
import Mathlib.Data.List.Dedup
import Tit.Git.DeltaSize

namespace Tit.Git

open Tit.Theory Tit.Store

set_option autoImplicit false

def maxDeltaDepth : Nat := 64

inductive EntryHeader where
  | object
  | ofsDelta (baseDistance : Nat)
  | refDelta (baseId : ObjectId)
  deriving DecidableEq, Repr

namespace EntryHeader

def isDelta : EntryHeader → Bool
  | .object => false
  | .ofsDelta _ | .refDelta _ => true

end EntryHeader

/-- The entries of a pack by their offsets, and the offsets of the objects it has. -/
structure Entries where
  header : Nat → Option EntryHeader
  offsetOf : ObjectId → Option Nat

/-- The depths that are known. -/
abbrev Depths := Nat → Option Nat

namespace Entries

variable (entries : Entries)

/-! ## The walk -/

/-- The first loop of `delta_depth`.  The path has the last entry in front and is the set of those
seen; `room` is how many entries it may still get. -/
def follow (depths : Depths) : Nat → List Nat → Nat → Except PackError (List Nat × Nat)
  | room, path, current =>
      match depths current with
      | some depth => .ok (path, depth)
      | none =>
          if current ∈ path then .error .deltaDepthLimit
          else
            match room with
            | 0 => .error .deltaDepthLimit
            | room + 1 =>
                match entries.header current with
                | none => .error .recoveryData
                | some (.ofsDelta distance) =>
                    if distance ≤ current then
                      follow depths room (current :: path) (current - distance)
                    else .error .deltaDepthLimit
                | some (.refDelta id) =>
                    match entries.offsetOf id with
                    | none => .ok (current :: path, 0)
                    | some base => follow depths room (current :: path) base
                | some .object => .ok (current :: path, 0)

/-- The second loop, from the last entry of the path to the first. -/
def note : List Nat → Nat → Depths → Except PackError Depths
  | [], _, depths => .ok depths
  | item :: rest, depth, depths =>
      match entries.header item with
      | none => .error .recoveryData
      | some header =>
          let depth := if header.isDelta then depth + 1 else depth
          if depth > maxDeltaDepth then .error .deltaDepthLimit
          else note rest depth (Function.update depths item (some depth))

def deltaDepth (offset : Nat) (depths : Depths) : Except PackError (Nat × Depths) :=
  match depths offset with
  | some depth => .ok (depth, depths)
  | none => do
      let (path, baseDepth) ← entries.follow depths (maxDeltaDepth + 1) [] offset
      let depths ← entries.note path baseDepth depths
      let depth ← required (depths offset) .recoveryData
      pure (depth, depths)

/-! ## Chains -/

/-- The entry is a delta on another entry. -/
inductive Base : Nat → Nat → Prop where
  | offset {o distance : Nat} (header : entries.header o = some (.ofsDelta distance))
      (inside : distance ≤ o) : Base o (o - distance)
  | reference {o base : Nat} {id : ObjectId} (header : entries.header o = some (.refDelta id))
      (found : entries.offsetOf id = some base) : Base o base

/-- The chain of bases of the entry has so many deltas, and ends at an object or at a base outside
of the pack. -/
inductive Chain : Nat → Nat → Prop where
  | object {o : Nat} (header : entries.header o = some .object) : Chain o 0
  | outside {o : Nat} {id : ObjectId} (header : entries.header o = some (.refDelta id))
      (absent : entries.offsetOf id = none) : Chain o 1
  | delta {o base depth : Nat} (link : Base entries o base) (chain : Chain base depth) :
      Chain o (depth + 1)

/-- The table holds the lengths of chains within the limit. -/
def Sound (depths : Depths) : Prop :=
  ∀ o depth, depths o = some depth → entries.Chain o depth ∧ depth ≤ maxDeltaDepth

variable {entries} {depths : Depths} {o base offset depth depth' : Nat} {path : List Nat}

theorem Base.unique {base' : Nat} (first : entries.Base o base) (second : entries.Base o base') :
    base = base' := by
  cases first with
  | offset header inside =>
      cases second with
      | offset header' inside' =>
          rw [header] at header'
          cases header'
          rfl
      | reference header' found' =>
          rw [header] at header'
          cases header'
  | reference header found =>
      cases second with
      | offset header' inside' =>
          rw [header] at header'
          cases header'
      | reference header' found' =>
          rw [header] at header'
          cases header'
          exact Option.some.inj (found.symm.trans found')

theorem Base.isDelta (link : entries.Base o base) :
    ∃ header, entries.header o = some header ∧ header.isDelta = true := by
  cases link with
  | offset header inside => exact ⟨_, header, rfl⟩
  | reference header found => exact ⟨_, header, rfl⟩

theorem Base.not_end (link : entries.Base o base) : ¬entries.header o = some .object ∧
    ∀ id, entries.header o = some (.refDelta id) → entries.offsetOf id ≠ none := by
  cases link with
  | offset header inside =>
      rw [header]
      exact ⟨nofun, nofun⟩
  | reference header found =>
      rw [header]
      refine ⟨nofun, ?_⟩
      rintro id ⟨⟩
      rw [found]
      nofun

/-- An entry has one chain. -/
theorem Chain.unique (first : entries.Chain o depth) (second : entries.Chain o depth') :
    depth = depth' := by
  induction first generalizing depth' with
  | object header =>
      cases second with
      | object _ => rfl
      | outside header' _ =>
          rw [header] at header'
          cases header'
      | delta link _ => exact absurd header link.not_end.1
  | outside header absent =>
      cases second with
      | object header' =>
          rw [header] at header'
          cases header'
      | outside _ _ => rfl
      | delta link _ => exact absurd absent (link.not_end.2 _ header)
  | delta link chain ih =>
      cases second with
      | object header' => exact absurd header' link.not_end.1
      | outside header' absent' => exact absurd absent' (link.not_end.2 _ header')
      | delta link' chain' =>
          obtain rfl := link.unique link'
          rw [ih chain']

/-- The chain of the base is shorter by one. -/
theorem Chain.shorter (chain : entries.Chain o depth) (link : entries.Base o base) :
    ∃ depth', depth = depth' + 1 ∧ entries.Chain base depth' := by
  cases chain with
  | object header => exact absurd header link.not_end.1
  | outside header absent => exact absurd absent (link.not_end.2 _ header)
  | delta link' chain =>
      obtain rfl := link'.unique link
      exact ⟨_, rfl, chain⟩

/-! ## The walk follows a chain -/

variable (entries) in
/-- Each entry of the path is a delta on the one before it. -/
def Linked : Nat → List Nat → Prop
  | _, [] => True
  | current, item :: rest => entries.Base item current ∧ Linked item rest

variable (entries) in
/-- The first entry of the path is this deep, but for itself. -/
def Rises (depth : Nat) : List Nat → Prop
  | [] => True
  | item :: rest => ∃ header, entries.header item = some header ∧
      entries.Chain item (if header.isDelta then depth + 1 else depth) ∧ entries.Linked item rest

theorem Linked.rises (linked : entries.Linked base path) (chain : entries.Chain base depth) :
    entries.Rises depth path := by
  cases path with
  | nil => trivial
  | cons item rest =>
      obtain ⟨link, later⟩ := linked
      obtain ⟨header, found, delta⟩ := link.isDelta
      refine ⟨header, found, ?_, later⟩
      rw [if_pos delta]
      exact .delta link chain

/-- A chain is as long as that of an entry on the path at most. -/
theorem Linked.le (linked : entries.Linked base path) (chain : entries.Chain base depth) {last : Nat}
    (ends : (base :: path).getLast? = some last) (chain' : entries.Chain last depth') :
    depth ≤ depth' := by
  induction path generalizing base depth with
  | nil =>
      cases ends
      exact (chain.unique chain').le
  | cons item rest ih =>
      obtain ⟨link, later⟩ := linked
      rw [List.getLast?_cons_cons] at ends
      exact Nat.le_of_succ_le (ih later (.delta link chain) ends)

theorem follow_known {room : Nat} (known : depths offset = some depth) :
    entries.follow depths room path offset = .ok (path, depth) := by
  unfold follow
  rw [known]

theorem follow_full (unknown : depths offset = none) :
    entries.follow depths 0 path offset = .error .deltaDepthLimit := by
  unfold follow
  rw [unknown]
  dsimp only
  split <;> rfl

theorem follow_seen {room : Nat} (unknown : depths offset = none) (seen : offset ∈ path) :
    entries.follow depths room path offset = .error .deltaDepthLimit := by
  unfold follow
  rw [unknown]
  exact if_pos seen

/-- One entry more on the path. -/
theorem follow_next {room : Nat} (unknown : depths offset = none) (unseen : offset ∉ path) :
    entries.follow depths (room + 1) path offset =
      match entries.header offset with
      | none => .error .recoveryData
      | some (.ofsDelta distance) =>
          if distance ≤ offset then
            entries.follow depths room (offset :: path) (offset - distance)
          else .error .deltaDepthLimit
      | some (.refDelta id) =>
          match entries.offsetOf id with
          | none => .ok (offset :: path, 0)
          | some base => entries.follow depths room (offset :: path) base
      | some .object => .ok (offset :: path, 0) := by
  rw [follow, unknown]
  exact if_neg unseen

theorem Linked.known_rises (linked : entries.Linked offset path) (sound : entries.Sound depths)
    (known : depths offset = some depth) :
    entries.Rises depth path ∧
      (path.getLast? = (offset :: path).getLast? ∨ path = [] ∧ depths offset ≠ none) := by
  refine ⟨linked.rises (sound _ _ known).1, ?_⟩
  cases path with
  | nil =>
      rw [known]
      exact Or.inr ⟨rfl, nofun⟩
  | cons item rest => exact Or.inl List.getLast?_cons_cons.symm

/-- The path that a walk returns rises to the entry it started from, which is left out only when its
own depth is known. -/
theorem follow_rises {room current : Nat} {path' : List Nat} (sound : entries.Sound depths)
    (linked : entries.Linked current path)
    (ok : entries.follow depths room path current = .ok (path', depth)) :
    entries.Rises depth path' ∧
      (path'.getLast? = (current :: path).getLast? ∨ path = [] ∧ depths current ≠ none) := by
  induction room generalizing path current with
  | zero =>
      cases known : depths current with
      | none =>
          rw [follow_full known] at ok
          cases ok
      | some found =>
          rw [follow_known known] at ok
          cases ok
          rw [← known]
          exact linked.known_rises sound known
  | succ room ih =>
      cases known : depths current with
      | some found =>
          rw [follow_known known] at ok
          cases ok
          rw [← known]
          exact linked.known_rises sound known
      | none =>
          by_cases seen : current ∈ path
          · rw [follow_seen known seen] at ok
            cases ok
          rw [follow_next known seen] at ok
          have goes : ∀ {base}, entries.Base current base →
              entries.follow depths room (current :: path) base = .ok (path', depth) →
              entries.Rises depth path' ∧ path'.getLast? = (current :: path).getLast? := by
            intro base link ok
            have longer : entries.Linked base (current :: path) := ⟨link, linked⟩
            obtain ⟨rises, ends | ⟨nothing, -⟩⟩ := ih longer ok
            · rw [List.getLast?_cons_cons] at ends
              exact ⟨rises, ends⟩
            · cases nothing
          cases header : entries.header current with
          | none =>
              rw [header] at ok
              cases ok
          | some kind =>
              rw [header] at ok
              cases kind with
              | object =>
                  cases ok
                  exact ⟨⟨_, header, .object header, linked⟩, Or.inl rfl⟩
              | ofsDelta distance =>
                  dsimp only at ok
                  by_cases inside : distance ≤ current
                  · rw [if_pos inside] at ok
                    obtain ⟨rises, ends⟩ := goes (.offset header inside) ok
                    exact ⟨rises, Or.inl ends⟩
                  · rw [if_neg inside] at ok
                    cases ok
              | refDelta id =>
                  dsimp only at ok
                  cases found : entries.offsetOf id with
                  | none =>
                      rw [found] at ok
                      cases ok
                      exact ⟨⟨_, header, .outside header found, linked⟩, Or.inl rfl⟩
                  | some base =>
                      rw [found] at ok
                      obtain ⟨rises, ends⟩ := goes (.reference header found) ok
                      exact ⟨rises, Or.inl ends⟩

/-- The walk follows a chain that ends, to its end or to a depth that is known. -/
theorem follow_succeeds {room current : Nat} (chain : entries.Chain current depth)
    (fits : depth < room) (above : ∀ p ∈ path, ∃ depth', entries.Chain p depth' ∧ depth < depth') :
    ∃ result, entries.follow depths room path current = .ok result := by
  induction room generalizing path current depth with
  | zero => omega
  | succ room ih =>
      cases known : depths current with
      | some found => exact ⟨_, follow_known known⟩
      | none =>
          have unseen : current ∉ path := by
            intro seen
            obtain ⟨depth', chain', longer⟩ := above current seen
            have := chain.unique chain'
            omega
          rw [follow_next known unseen]
          have goes : ∀ {base}, entries.Base current base →
              ∃ result, entries.follow depths room (current :: path) base = .ok result := by
            intro base link
            obtain ⟨depth', rfl, shorter⟩ := chain.shorter link
            refine ih shorter (by omega) fun p member => ?_
            rcases List.mem_cons.mp member with rfl | before
            · exact ⟨_, chain, Nat.lt_succ_self _⟩
            · obtain ⟨longer, chain', more⟩ := above p before
              exact ⟨longer, chain', by omega⟩
          cases chain with
          | object header =>
              rw [header]
              exact ⟨_, rfl⟩
          | outside header absent =>
              rw [header]
              dsimp only
              rw [absent]
              exact ⟨_, rfl⟩
          | delta link chain =>
              cases link with
              | offset header inside =>
                  rw [header]
                  dsimp only
                  rw [if_pos inside]
                  exact goes (.offset header inside)
              | reference header found =>
                  rw [header]
                  dsimp only
                  rw [found]
                  exact goes (.reference header found)

/-! ## The depths that are noted -/

theorem Sound.update (sound : entries.Sound depths) (chain : entries.Chain o depth)
    (within : depth ≤ maxDeltaDepth) :
    entries.Sound (Function.update depths o (some depth)) := by
  intro p depth' known
  by_cases here : p = o
  · subst here
    rw [Function.update_self] at known
    cases known
    exact ⟨chain, within⟩
  · rw [Function.update_of_ne here] at known
    exact sound p depth' known

/-- **What the second loop notes**, along a path whose last entry has a chain. -/
theorem note_spec {last : Nat} (rises : entries.Rises depth path)
    (ends : path.getLast? = some last) (chain : entries.Chain last depth')
    (sound : entries.Sound depths) :
    (depth' ≤ maxDeltaDepth → ∃ depths', entries.note path depth depths = .ok depths' ∧
      entries.Sound depths' ∧ depths' last = some depth') ∧
    (maxDeltaDepth < depth' → ∀ depths', entries.note path depth depths ≠ .ok depths') := by
  induction path generalizing depth depths with
  | nil => cases ends
  | cons item rest ih =>
      obtain ⟨header, found, here, linked⟩ := rises
      have below := linked.le here ends chain
      simp only [note, found]
      generalize (if header.isDelta = true then depth + 1 else depth) = deep at here below ⊢
      cases rest with
      | nil =>
          cases ends
          obtain rfl := here.unique chain
          constructor
          · intro within
            rw [if_neg (by omega)]
            exact ⟨_, rfl, sound.update here within, Function.update_self ..⟩
          · intro beyond depths'
            rw [if_pos beyond]
            nofun
      | cons next rest =>
          rw [List.getLast?_cons_cons] at ends
          by_cases beyond : deep > maxDeltaDepth
          · rw [if_pos beyond]
            exact ⟨fun within => absurd within (by omega), fun _ => nofun⟩
          · rw [if_neg beyond]
            exact ih (linked.rises here) ends (sound.update here (by omega))

theorem rises_last {last : Nat} (rises : entries.Rises depth path)
    (ends : path.getLast? = some last) : ∃ depth', entries.Chain last depth' := by
  induction path generalizing depth with
  | nil => cases ends
  | cons item rest ih =>
      obtain ⟨header, found, here, linked⟩ := rises
      cases rest with
      | nil =>
          cases ends
          exact ⟨_, here⟩
      | cons next rest =>
          rw [List.getLast?_cons_cons] at ends
          exact ih (linked.rises here) ends

theorem followed_rises {path' : List Nat} {start : Nat} (sound : entries.Sound depths)
    (unknown : depths offset = none)
    (ok : entries.follow depths (maxDeltaDepth + 1) [] offset = .ok (path', start)) :
    entries.Rises start path' ∧ path'.getLast? = some offset := by
  have begins : entries.Linked offset [] := trivial
  obtain ⟨rises, ends | ⟨-, known⟩⟩ := follow_rises sound begins ok
  · exact ⟨rises, ends⟩
  · exact absurd unknown known

/-- The two loops one after the other note the depth of the entry. -/
theorem followed_noted {path' : List Nat} {start : Nat} {depths' : Depths}
    (sound : entries.Sound depths) (unknown : depths offset = none)
    (followed : entries.follow depths (maxDeltaDepth + 1) [] offset = .ok (path', start))
    (noted : entries.note path' start depths = .ok depths') :
    ∃ depth, depths' offset = some depth ∧ entries.Chain offset depth ∧ depth ≤ maxDeltaDepth ∧
      entries.Sound depths' := by
  obtain ⟨rises, ends⟩ := followed_rises sound unknown followed
  obtain ⟨depth, chain⟩ := rises_last rises ends
  obtain ⟨within, beyond⟩ := note_spec rises ends chain sound
  by_cases fits : depth ≤ maxDeltaDepth
  · obtain ⟨depths'', noted', sound', last⟩ := within fits
    rw [noted] at noted'
    cases noted'
    exact ⟨depth, last, chain, fits, sound'⟩
  · exact absurd noted (beyond (by omega) _)

/-- What an entry that is accepted says of its chain, and that its chain is all it takes. -/
theorem deltaDepth_spec (sound : entries.Sound depths) :
    (∀ depths', entries.deltaDepth offset depths = .ok (depth, depths') →
      entries.Chain offset depth ∧ depth ≤ maxDeltaDepth ∧ entries.Sound depths') ∧
    (entries.Chain offset depth → depth ≤ maxDeltaDepth →
      ∃ depths', entries.deltaDepth offset depths = .ok (depth, depths')) := by
  unfold deltaDepth
  cases known : depths offset with
  | some depth' =>
      obtain ⟨chain, within⟩ := sound _ _ known
      constructor
      · intro depths' same
        cases same
        exact ⟨chain, within, sound⟩
      · intro chain' _
        exact ⟨depths, by rw [chain.unique chain']⟩
  | none =>
      constructor
      · intro depths' ok
        obtain ⟨⟨path', start⟩, followed, ok⟩ := bind_eq_ok.mp ok
        obtain ⟨depths'', noted, ok⟩ := bind_eq_ok.mp ok
        obtain ⟨depth', found, ok⟩ := bind_eq_ok.mp ok
        cases ok
        obtain ⟨deep, last, chain, fits, sound'⟩ := followed_noted sound known followed noted
        rw [last] at found
        cases found
        exact ⟨chain, fits, sound'⟩
      · intro chain fits
        obtain ⟨⟨path', start⟩, followed⟩ :=
          @follow_succeeds entries depths depth [] (maxDeltaDepth + 1) offset chain (by omega) nofun
        obtain ⟨rises, ends⟩ := followed_rises sound known followed
        obtain ⟨depths', noted, -, last⟩ := (note_spec rises ends chain sound).1 fits
        refine ⟨depths', ?_⟩
        rw [followed, ok_bind]
        dsimp only
        rw [noted, ok_bind, last]
        rfl

/-! ## How it fails -/

variable (entries) in
/-- The base of a delta is an entry too, unless it is outside of the pack. -/
def Closed : Prop := ∀ o base, entries.Base o base → entries.header base ≠ none

theorem follow_closed {room current : Nat} (closed : entries.Closed)
    (present : entries.header current ≠ none) (before : ∀ p ∈ path, entries.header p ≠ none) :
    (∃ path' start, entries.follow depths room path current = .ok (path', start) ∧
      ∀ p ∈ path', entries.header p ≠ none) ∨
    entries.follow depths room path current = .error .deltaDepthLimit := by
  induction room generalizing path current with
  | zero =>
      cases known : depths current with
      | none => exact Or.inr (follow_full known)
      | some found => exact Or.inl ⟨path, found, follow_known known, before⟩
  | succ room ih =>
      cases known : depths current with
      | some found => exact Or.inl ⟨path, found, follow_known known, before⟩
      | none =>
          by_cases seen : current ∈ path
          · exact Or.inr (follow_seen known seen)
          rw [follow_next known seen]
          have longer : ∀ p ∈ current :: path, entries.header p ≠ none := by
            intro p member
            rcases List.mem_cons.mp member with rfl | old
            · exact present
            · exact before p old
          cases header : entries.header current with
          | none => exact absurd header present
          | some kind =>
              cases kind with
              | object => exact Or.inl ⟨_, _, rfl, longer⟩
              | ofsDelta distance =>
                  dsimp only
                  by_cases inside : distance ≤ current
                  · rw [if_pos inside]
                    exact ih (closed _ _ (.offset header inside)) longer
                  · exact Or.inr (if_neg inside)
              | refDelta id =>
                  dsimp only
                  cases found : entries.offsetOf id with
                  | none => exact Or.inl ⟨_, _, rfl, longer⟩
                  | some base => exact ih (closed _ _ (.reference header found)) longer

theorem note_closed (before : ∀ p ∈ path, entries.header p ≠ none) :
    (∃ depths', entries.note path depth depths = .ok depths') ∨
      entries.note path depth depths = .error .deltaDepthLimit := by
  induction path generalizing depth depths with
  | nil => exact Or.inl ⟨depths, rfl⟩
  | cons item rest ih =>
      unfold note
      cases header : entries.header item with
      | none => exact absurd header (before item List.mem_cons_self)
      | some kind =>
          dsimp only
          generalize (if kind.isDelta = true then depth + 1 else depth) = deep
          by_cases beyond : deep > maxDeltaDepth
          · exact Or.inr (if_pos beyond)
          · rw [if_neg beyond]
            exact ih fun p later => before p (List.mem_cons_of_mem _ later)

/-- When no base is missing, an entry is refused for its depth. -/
theorem deltaDepth_closed (closed : entries.Closed) (sound : entries.Sound depths)
    (present : entries.header offset ≠ none) :
    (∃ depth depths', entries.deltaDepth offset depths = .ok (depth, depths')) ∨
      entries.deltaDepth offset depths = .error .deltaDepthLimit := by
  unfold deltaDepth
  cases known : depths offset with
  | some found => exact Or.inl ⟨found, depths, rfl⟩
  | none =>
      have nothing : ∀ p ∈ ([] : List Nat), entries.header p ≠ none := nofun
      rcases @follow_closed entries depths [] (maxDeltaDepth + 1) offset closed present nothing with
        ⟨path', start, followed, headers⟩ | refused
      · rw [followed, ok_bind]
        dsimp only
        rcases @note_closed entries depths start path' headers with ⟨depths', noted⟩ | refused
        · rw [noted, ok_bind]
          obtain ⟨deep, last, -, -, -⟩ := followed_noted sound known followed noted
          rw [last]
          exact Or.inl ⟨_, _, rfl⟩
        · rw [refused]
          exact Or.inr rfl
      · rw [refused]
        exact Or.inr rfl

end Entries

/-! ## The entries of a bundle -/

/-- A pack with its index: what the index lists, and the entries that can be read. -/
structure Bundle where
  index : List (ObjectId × Nat)
  entry : Nat → Except PackError EntryHeader

/-- The order in which the keys of a hash map come. -/
structure HashOrder where
  order : List Nat → List Nat
  same : ∀ keys, (order keys).Perm keys

namespace Bundle

variable (bundle : Bundle)

def headers : List (ObjectId × Nat) → Except PackError (List (Nat × EntryHeader))
  | [] => .ok []
  | (_, offset) :: rest => do
      let header ← bundle.entry offset
      let later ← headers rest
      pure ((offset, header) :: later)

/-- The two hash maps; the last of several values is kept. -/
def entries (headers : List (Nat × EntryHeader)) : Entries where
  header offset := headers.reverse.lookup offset
  offsetOf id := bundle.index.reverse.lookup id

end Bundle

def checkDepths (entries : Entries) : List Nat → Depths → Except PackError Unit
  | [], _ => .ok ()
  | offset :: rest, depths => do
      let (depth, depths) ← entries.deltaDepth offset depths
      if depth > maxDeltaDepth then .error .deltaDepthLimit
      else checkDepths entries rest depths

def validateDeltaDepth (bundle : Bundle) (hash : HashOrder) : Except PackError Unit := do
  let headers ← bundle.headers bundle.index
  checkDepths (bundle.entries headers) (hash.order (headers.map Prod.fst).dedup) fun _ => none

/-- What the limit asks of a pack: every chain of deltas ends within the limit, the bases that are
named by their distance are entries, and no chain comes back to its start. -/
structure Shallow (entries : Entries) (offsets : List Nat) : Prop where
  ends : ∀ o ∈ offsets, ∃ depth ≤ maxDeltaDepth, entries.Chain o depth
  bases : ∀ o ∈ offsets, ∀ distance, entries.header o = some (.ofsDelta distance) →
    distance ≤ o ∧ entries.header (o - distance) ≠ none
  acyclic : ∀ o ∈ offsets, ¬Relation.TransGen entries.Base o o

section Bundle

variable {entries : Entries} {depths : Depths} {bundle : Bundle} {offsets : List Nat}

theorem Entries.Chain.present {o depth : Nat} (chain : entries.Chain o depth) :
    entries.header o ≠ none := by
  cases chain with
  | object header =>
      rw [header]
      nofun
  | outside header _ =>
      rw [header]
      nofun
  | delta link _ =>
      obtain ⟨header, found, -⟩ := link.isDelta
      rw [found]
      nofun

/-- Along a chain the depth falls, so that it does not come back. -/
theorem Entries.Chain.falls {o base depth : Nat} (chain : entries.Chain o depth)
    (path : Relation.TransGen entries.Base o base) :
    ∃ depth', entries.Chain base depth' ∧ depth' < depth := by
  induction path with
  | single link =>
      obtain ⟨depth', rfl, shorter⟩ := chain.shorter link
      exact ⟨depth', shorter, Nat.lt_succ_self _⟩
  | tail _ link ih =>
      obtain ⟨depth', chain', less⟩ := ih
      obtain ⟨depth'', rfl, shorter⟩ := chain'.shorter link
      exact ⟨depth'', shorter, by omega⟩

theorem shallow_iff :
    Shallow entries offsets ↔ ∀ o ∈ offsets, ∃ depth ≤ maxDeltaDepth, entries.Chain o depth := by
  constructor
  · exact Shallow.ends
  · intro ends
    refine ⟨ends, fun o member distance header => ?_, fun o member cycle => ?_⟩
    · obtain ⟨depth, -, chain⟩ := ends o member
      cases chain with
      | object header' =>
          rw [header] at header'
          cases header'
      | outside header' _ =>
          rw [header] at header'
          cases header'
      | delta link chain =>
          cases link with
          | offset header' inside =>
              rw [header] at header'
              cases header'
              exact ⟨inside, chain.present⟩
          | reference header' _ =>
              rw [header] at header'
              cases header'
    · obtain ⟨depth, -, chain⟩ := ends o member
      obtain ⟨depth', chain', less⟩ := chain.falls cycle
      exact Nat.ne_of_lt less (chain'.unique chain)

theorem sound_empty : entries.Sound fun _ => none := by
  intro o depth known
  cases known

/-- The offsets are accepted in any order, and whatever is known before. -/
theorem checkDepths_eq_ok (sound : entries.Sound depths) :
    checkDepths entries offsets depths = .ok () ↔ Shallow entries offsets := by
  rw [shallow_iff]
  induction offsets generalizing depths with
  | nil => exact ⟨nofun, fun _ => rfl⟩
  | cons offset rest ih =>
      rw [checkDepths, List.forall_mem_cons]
      constructor
      · intro ok
        obtain ⟨⟨depth, depths'⟩, accepted, ok⟩ := bind_eq_ok.mp ok
        obtain ⟨chain, within, sound'⟩ := (Entries.deltaDepth_spec sound).1 _ accepted
        dsimp only at ok
        rw [if_neg (by omega)] at ok
        exact ⟨⟨depth, within, chain⟩, (ih sound').mp ok⟩
      · rintro ⟨⟨depth, within, chain⟩, later⟩
        obtain ⟨depths', accepted⟩ := (Entries.deltaDepth_spec sound).2 chain within
        obtain ⟨-, -, sound'⟩ := (Entries.deltaDepth_spec sound).1 _ accepted
        rw [accepted, ok_bind]
        dsimp only
        rw [if_neg (by omega)]
        exact (ih sound').mpr later

theorem checkDepths_closed (closed : entries.Closed) (sound : entries.Sound depths)
    (present : ∀ o ∈ offsets, entries.header o ≠ none) :
    checkDepths entries offsets depths = .ok () ∨
      checkDepths entries offsets depths = .error .deltaDepthLimit := by
  induction offsets generalizing depths with
  | nil => exact Or.inl rfl
  | cons offset rest ih =>
      obtain ⟨here, later⟩ := List.forall_mem_cons.mp present
      rw [checkDepths]
      rcases Entries.deltaDepth_closed closed sound here with ⟨depth, depths', accepted⟩ | refused
      · obtain ⟨-, within, sound'⟩ := (Entries.deltaDepth_spec sound).1 _ accepted
        rw [accepted, ok_bind]
        dsimp only
        rw [if_neg (by omega)]
        exact ih sound' later
      · rw [refused]
        exact Or.inr rfl

theorem headers_offsets {index : List (ObjectId × Nat)} {headers : List (Nat × EntryHeader)}
    (ok : bundle.headers index = .ok headers) :
    headers.map Prod.fst = index.map Prod.snd := by
  induction index generalizing headers with
  | nil =>
      cases ok
      rfl
  | cons entry rest ih =>
      obtain ⟨header, read, ok⟩ := bind_eq_ok.mp ok
      obtain ⟨later, read', ok⟩ := bind_eq_ok.mp ok
      cases ok
      rw [List.map_cons, List.map_cons, ih read']

theorem entries_header {headers : List (Nat × EntryHeader)} {o : Nat} :
    (bundle.entries headers).header o ≠ none ↔ o ∈ headers.map Prod.fst := by
  unfold Bundle.entries
  dsimp only
  rw [Ne, List.lookup_eq_none_iff]
  simp

theorem mem_order {hash : HashOrder} {headers : List (Nat × EntryHeader)} {o : Nat} :
    o ∈ hash.order (headers.map Prod.fst).dedup ↔ o ∈ headers.map Prod.fst := by
  rw [(hash.same _).mem_iff, List.mem_dedup]

theorem validateDeltaDepth_eq_ok {hash : HashOrder} :
    validateDeltaDepth bundle hash = .ok () ↔
      ∃ headers, bundle.headers bundle.index = .ok headers ∧
        Shallow (bundle.entries headers) (bundle.index.map Prod.snd) := by
  unfold validateDeltaDepth
  rw [bind_eq_ok]
  apply exists_congr
  intro headers
  refine and_congr_right fun read => ?_
  rw [checkDepths_eq_ok sound_empty, shallow_iff, shallow_iff, ← headers_offsets read]
  simp only [mem_order]

theorem validateDeltaDepth_order {headers : List (Nat × EntryHeader)}
    (read : bundle.headers bundle.index = .ok headers)
    (closed : (bundle.entries headers).Closed) (hash hash' : HashOrder) :
    validateDeltaDepth bundle hash = validateDeltaDepth bundle hash' := by
  have answers : ∀ order, validateDeltaDepth bundle order = .ok () ∨
      validateDeltaDepth bundle order = .error .deltaDepthLimit := by
    intro order
    unfold validateDeltaDepth
    rw [read, ok_bind]
    exact checkDepths_closed closed sound_empty fun o member =>
      entries_header.mpr (mem_order.mp member)
  have same : validateDeltaDepth bundle hash = .ok () ↔ validateDeltaDepth bundle hash' = .ok () := by
    rw [validateDeltaDepth_eq_ok, validateDeltaDepth_eq_ok]
  rcases answers hash with accepted | refused
  · rw [accepted, same.mp accepted]
  · rcases answers hash' with accepted' | refused'
    · rw [accepted', same.mpr accepted']
    · rw [refused, refused']

/-- **The limit on chains of deltas**: a pack is accepted exactly when its entries can be read and
their chains are within the limit, in whatever order the entries come; one entry is accepted for its
own chain, whatever depths are known before; a chain that comes back to its start is refused. -/
theorem validateDeltaDepth_iff (bundle : Bundle) :
    (∀ hash, validateDeltaDepth bundle hash = .ok () ↔
      ∃ headers, bundle.headers bundle.index = .ok headers ∧
        Shallow (bundle.entries headers) (bundle.index.map Prod.snd)) ∧
    (∀ headers, bundle.headers bundle.index = .ok headers → (bundle.entries headers).Closed →
      ∀ hash hash', validateDeltaDepth bundle hash = validateDeltaDepth bundle hash') ∧
    (∀ (entries : Entries) (depths : Depths) (offset depth : Nat), entries.Sound depths →
      ((∃ depths', entries.deltaDepth offset depths = .ok (depth, depths')) ↔
        entries.Chain offset depth ∧ depth ≤ maxDeltaDepth)) ∧
    ∀ (entries : Entries) (depths : Depths) (offset : Nat), entries.Sound depths →
      Relation.TransGen entries.Base offset offset →
      ∃ error, entries.deltaDepth offset depths = .error error := by
  refine ⟨fun hash => validateDeltaDepth_eq_ok,
    fun headers read closed hash hash' => validateDeltaDepth_order read closed hash hash', ?_, ?_⟩
  · intro entries depths offset depth sound
    obtain ⟨accepted_spec, accepts⟩ := Entries.deltaDepth_spec sound
    constructor
    · rintro ⟨depths', accepted⟩
      obtain ⟨chain, within, -⟩ := accepted_spec depths' accepted
      exact ⟨chain, within⟩
    · rintro ⟨chain, within⟩
      exact accepts chain within
  · intro entries depths offset sound cycle
    cases answer : entries.deltaDepth offset depths with
    | error error => exact ⟨error, rfl⟩
    | ok result =>
        obtain ⟨chain, -, -⟩ := (Entries.deltaDepth_spec sound).1 _ answer
        obtain ⟨depth', chain', less⟩ := chain.falls cycle
        exact absurd (chain'.unique chain) (Nat.ne_of_lt less)

end Bundle

/-- A chain of the greatest length ends, and one delta more does not. -/
example :
    let bundle (last : Nat) : Bundle :=
      ⟨(List.range last).map fun n => (⟨n⟩, n),
        fun offset => .ok (if offset = 0 then .object else .ofsDelta 1)⟩
    let hash : HashOrder := ⟨List.reverse, List.reverse_perm⟩
    validateDeltaDepth (bundle 65) hash = .ok () ∧
      validateDeltaDepth (bundle 66) hash = .error .deltaDepthLimit := by decide

end Tit.Git
