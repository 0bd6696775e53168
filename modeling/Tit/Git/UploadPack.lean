/-
# Git.UploadPack -- the pack that is sent to a client

`write_pack` walks the objects twice: from what the client has, where an object the client names and
the server lacks is left out, and from what the client wants, where nothing may be missing.  The pack
is what the second walk reaches and the first does not, in the order of the identifiers.

The pack completes the client (`writePack_completes`): with the objects that it has, it then has all
that it wants needs.
-/
import Tit.Git.Validation

namespace Tit.Git

open Tit.Theory Tit.Store

set_option autoImplicit false

def maxObjectsPerPack : Nat := 100000

def maxPackBytes : Nat := 256 * 1024 * 1024

inductive UploadError where
  | wrongObjectFormat
  | references (reason : String)
  | unadvertisedWant
  | objectLimit
  | missingObject (id : ObjectId)
  | object (id : ObjectId) (reason : String)
  | damagedObject (id : ObjectId)
  | pack (reason : String)
  deriving DecidableEq, Repr

/-- A reference, with the object that a tag ends at. -/
structure GitReference where
  target : ObjectId
  peeled : Option ObjectId
  deriving DecidableEq, Repr

/-- An identifier with its hash. -/
structure FormattedId where
  format : ObjectFormat
  id : ObjectId
  deriving DecidableEq, Repr

/-- A repository as it is read: its references and its objects. -/
structure UploadRepository where
  format : ObjectFormat
  references : Except String (List GitReference)
  find : ObjectSource
  /-- How long the pack of these objects is. -/
  packLength : List ObjectId → Nat

namespace UploadRepository

variable (repository : UploadRepository)

/-- One turn of `walk_reachable`. -/
def expandObject (permittedMissing : ObjectId → Bool) (id : ObjectId) :
    Except UploadError (Option (List ObjectId)) :=
  match repository.find id with
  | .error reason => .error (.object id reason)
  | .ok none => if permittedMissing id then .ok none else .error (.missingObject id)
  | .ok (some object) =>
      match object.data.links with
      | none => .error (.damagedObject id)
      | some links => .ok (some links)

def walking (permittedMissing : ObjectId → Bool) : Searching ObjectId UploadError where
  discipline := .stack
  expand := repository.expandObject permittedMissing
  goal _ := false
  full := .objectLimit

def walkReachable (roots : List ObjectId) (permittedMissing : ObjectId → Bool) :
    Except UploadError (List ObjectId) :=
  (search (repository.walking permittedMissing) maxObjectsPerPack roots.reverse []).map Prod.snd

def advertised (references : List GitReference) : List ObjectId :=
  references.flatMap fun reference => reference.target :: reference.peeled.toList

/-- `pack_entry` for one object after the other; its failures end up in the error of the pack. -/
def packEntries : List ObjectId → Nat → Except UploadError Unit
  | [], _ => .ok ()
  | id :: rest, total =>
      match repository.find id with
      | .ok (some object) =>
          let total := total + object.size
          if object.size > maxObjectBytes ∨ total > maxPackBytes then .error (.pack "object limit")
          else packEntries rest total
      | _ => .error (.pack "object")

/-- What the second walk reached and the first did not, in the order of the identifiers. -/
def remaining (excluded reached : List ObjectId) : List ObjectId :=
  (reached.filter fun id => decide (id ∉ excluded)).insertionSort fun a b => a.value ≤ b.value

/-- The part of `write_pack` after the walks. -/
def sendObjects (objects : List ObjectId) : Except UploadError (List ObjectId) := do
  ensure (objects.length < 2 ^ 32) .objectLimit
  repository.packEntries objects 0
  ensure (repository.packLength objects ≤ maxPackBytes) (.pack "pack limit")
  pure objects

/-- The objects of the pack, in their order. -/
def writePack (wants haves : List FormattedId) : Except UploadError (List ObjectId) := do
  ensure (∀ id ∈ wants ++ haves, id.format = repository.format) .wrongObjectFormat
  let references ← repository.references.mapError .references
  ensure (wants ≠ [] ∧ ∀ want ∈ wants, want.id ∈ advertised references) .unadvertisedWant
  let haves := haves.map (·.id)
  let wants := wants.map (·.id)
  let excluded ← repository.walkReachable haves fun id => decide (id ∈ haves)
  let reached ← repository.walkReachable wants fun _ => false
  repository.sendObjects (remaining excluded reached)

/-! ## What objects need -/

/-- The object is there, and links to these. -/
def Stored (id : ObjectId) (links : List ObjectId) : Prop :=
  ∃ object, repository.find id = .ok (some object) ∧ object.data.links = some links

def Missing (id : ObjectId) : Prop := repository.find id = .ok none

/-- The server has the object. -/
def Known (id : ObjectId) : Prop := ∃ object, repository.find id = .ok (some object)

def Link (x y : ObjectId) : Prop := ∃ links, repository.Stored x links ∧ y ∈ links

/-- What the object needs, and itself. -/
abbrev Needs : ObjectId → ObjectId → Prop := Relation.ReflTransGen repository.Link

/-- One of the objects needs this one. -/
def Wanted (roots : List ObjectId) (x : ObjectId) : Prop := ∃ root ∈ roots, repository.Needs root x

/-- One of the objects that the server has needs this one. -/
def Had (roots : List ObjectId) (x : ObjectId) : Prop :=
  ∃ root ∈ roots, repository.Known root ∧ repository.Needs root x

/-- What these need can be looked up, and parses when it is there. -/
def Undamaged (roots : List ObjectId) : Prop :=
  ∀ id, repository.Wanted roots id → repository.Missing id ∨ ∃ links, repository.Stored id links

/-- The walk from these objects has room. -/
def WithinLimit (roots : List ObjectId) : Prop :=
  ∃ all : List ObjectId, all.length ≤ maxObjectsPerPack ∧ ∀ x, repository.Wanted roots x → x ∈ all

variable {repository} {roots : List ObjectId} {permittedMissing : ObjectId → Bool} {x y : ObjectId}

theorem expandObject_links {links : List ObjectId} :
    repository.expandObject permittedMissing x = .ok (some links) ↔ repository.Stored x links := by
  unfold expandObject Stored
  cases found : repository.find x with
  | error reason =>
      constructor
      · nofun
      · rintro ⟨object, same, -⟩
        cases same
  | ok stored =>
      cases stored with
      | none =>
          constructor
          · intro ok
            dsimp only at ok
            split at ok
            · cases ok
            · cases ok
          · rintro ⟨object, same, -⟩
            cases same
      | some object =>
          cases parsed : object.data.links with
          | none =>
              simp only [parsed]
              constructor
              · nofun
              · rintro ⟨object', same, parsed'⟩
                cases same
                rw [parsed] at parsed'
                cases parsed'
          | some links' =>
              simp only [parsed]
              constructor
              · rintro ⟨⟩
                exact ⟨object, rfl, parsed⟩
              · rintro ⟨object', same, parsed'⟩
                cases same
                rw [parsed] at parsed'
                cases parsed'
                rfl

theorem expandObject_none :
    repository.expandObject permittedMissing x = .ok none ↔
      repository.Missing x ∧ permittedMissing x = true := by
  unfold expandObject Missing
  cases found : repository.find x with
  | error reason => exact ⟨nofun, nofun⟩
  | ok stored =>
      cases stored with
      | none =>
          by_cases permitted : permittedMissing x = true
          · rw [if_pos permitted]
            exact ⟨fun _ => ⟨rfl, permitted⟩, fun _ => rfl⟩
          · rw [if_neg permitted]
            exact ⟨nofun, fun both => absurd both.2 permitted⟩
      | some object =>
          constructor
          · intro ok
            dsimp only at ok
            split at ok
            · cases ok
            · cases ok
          · nofun

theorem expandObject_missing :
    repository.expandObject permittedMissing x = .error (.missingObject y) ↔
      y = x ∧ repository.Missing x ∧ permittedMissing x = false := by
  unfold expandObject Missing
  cases found : repository.find x with
  | error reason =>
      constructor
      · nofun
      · rintro ⟨-, ⟨⟩, -⟩
  | ok stored =>
      cases stored with
      | none =>
          by_cases permitted : permittedMissing x = true
          · rw [if_pos permitted, permitted]
            exact ⟨nofun, nofun⟩
          · rw [if_neg permitted]
            constructor
            · rintro ⟨⟩
              exact ⟨rfl, rfl, Bool.eq_false_iff.mpr permitted⟩
            · rintro ⟨rfl, -, -⟩
              rfl
      | some object =>
          constructor
          · intro failed
            dsimp only at failed
            split at failed
            · cases failed
            · cases failed
          · rintro ⟨-, ⟨⟩, -⟩

theorem walking_from : (repository.walking permittedMissing).From roots.reverse x ↔
    repository.Wanted roots x := by
  have same : (repository.walking permittedMissing).Link = repository.Link := by
    funext a b
    apply propext
    unfold Searching.Link Link
    exact exists_congr fun links => and_congr_left' expandObject_links
  unfold Searching.From Searching.Path Wanted
  rw [same]
  simp only [List.mem_reverse]

/-! ## The walk -/

theorem walkReachable_search {reached : List ObjectId}
    (ok : repository.walkReachable roots permittedMissing = .ok reached) :
    search (repository.walking permittedMissing) maxObjectsPerPack roots.reverse [] =
      .ok (false, reached) := by
  obtain ⟨⟨found, visited⟩, walked, rfl⟩ := map_eq_ok.mp ok
  cases found with
  | false => exact walked
  | true =>
      obtain ⟨-, -, -, -, goals⟩ := search_reaches walked
      obtain ⟨g, isGoal, -⟩ := goals rfl
      cases isGoal

/-- **What the walk reaches**: the objects that are there and that one of its roots needs. -/
theorem walkReachable_mem {reached : List ObjectId}
    (ok : repository.walkReachable roots permittedMissing = .ok reached) :
    reached.Nodup ∧ ∀ x, x ∈ reached ↔ repository.Wanted roots x ∧ ∃ links, repository.Stored x links := by
  have ok := walkReachable_search ok
  obtain ⟨visits, -, distinct, -, -⟩ := search_reaches ok
  refine ⟨distinct List.nodup_nil, fun x => ⟨fun member => ?_, ?_⟩⟩
  · rcases visits x member with old | ⟨path, -, links, expands⟩
    · cases old
    · exact ⟨walking_from.mp path, links, expandObject_links.mp expands⟩
  · rintro ⟨wanted, links, stored⟩
    rcases search_all ok (walking_from.mpr wanted) with inside | ⟨-, out⟩
    · exact inside
    · rw [show (repository.walking permittedMissing).expand x = .ok (some links) from
        expandObject_links.mpr stored] at out
      cases out

/-- What a walk that succeeds reaches is there, or may be missing. -/
theorem walkReachable_complete {reached : List ObjectId}
    (ok : repository.walkReachable roots permittedMissing = .ok reached)
    (wanted : repository.Wanted roots x) :
    (∃ links, repository.Stored x links) ∨ repository.Missing x ∧ permittedMissing x = true := by
  have ok := walkReachable_search ok
  obtain ⟨visits, -⟩ := search_reaches ok
  rcases search_all ok (walking_from.mpr wanted) with inside | ⟨-, out⟩
  · rcases visits x inside with old | ⟨_, -, links, expands⟩
    · cases old
    · exact Or.inl ⟨links, expandObject_links.mp expands⟩
  · exact Or.inr (expandObject_none.mp out)

theorem walkReachable_missing
    (failed : repository.walkReachable roots permittedMissing = .error (.missingObject y)) :
    repository.Wanted roots y ∧ repository.Missing y ∧ permittedMissing y = false := by
  have failed : search (repository.walking permittedMissing) maxObjectsPerPack roots.reverse [] =
      .error (.missingObject y) := by
    unfold walkReachable at failed
    cases answer : search (repository.walking permittedMissing) maxObjectsPerPack roots.reverse [] with
    | ok result =>
        rw [answer] at failed
        cases failed
    | error error =>
        rw [answer] at failed
        cases failed
        rfl
  rcases search_fails failed with full | ⟨x, path, -, fails⟩
  · cases full
  · obtain ⟨rfl, missing, unpermitted⟩ := expandObject_missing.mp fails
    exact ⟨walking_from.mp path, missing, unpermitted⟩

/-- Where nothing is damaged and there is room, the walk fails for a missing object only. -/
theorem walkReachable_cases (undamaged : repository.Undamaged roots)
    (limited : repository.WithinLimit roots) :
    (∃ reached, repository.walkReachable roots permittedMissing = .ok reached) ∨
      ∃ id, repository.walkReachable roots permittedMissing = .error (.missingObject id) := by
  obtain ⟨all, few, listed⟩ := limited
  rcases @search_room _ _ (repository.walking permittedMissing) maxObjectsPerPack roots.reverse [] _
    all List.nodup_nil nofun (fun x path => listed x (walking_from.mp path)) (by simpa using few)
    with ⟨result, ok⟩ | ⟨x, error, path, -, fails, failed⟩
  · exact Or.inl ⟨result.2, map_eq_ok.mpr ⟨result, ok, rfl⟩⟩
  · have missing : error = .missingObject x := by
      rcases undamaged x (walking_from.mp path) with missing | ⟨links, stored⟩
      · have expands : repository.expandObject permittedMissing x = .error error := fails
        unfold expandObject at expands
        rw [missing] at expands
        dsimp only at expands
        split at expands
        · cases expands
        · cases expands
          rfl
      · rw [show (repository.walking permittedMissing).expand x = .ok (some links) from
          expandObject_links.mpr stored] at fails
        cases fails
    subst missing
    refine Or.inr ⟨x, ?_⟩
    unfold walkReachable
    rw [failed]
    rfl

/-! ## The pack -/

variable {wants haves : List FormattedId} {pack : List ObjectId}

/-- The identifiers without their hashes. -/
def ids (formatted : List FormattedId) : List ObjectId := formatted.map (·.id)

/-- What a pack that is written stands for. -/
theorem writePack_walks (ok : repository.writePack wants haves = .ok pack) :
    ∃ references excluded reached, repository.references = .ok references ∧ wants ≠ [] ∧
      (∀ want ∈ wants, want.id ∈ advertised references) ∧
      repository.walkReachable (ids haves) (fun id => decide (id ∈ ids haves)) = .ok excluded ∧
      repository.walkReachable (ids wants) (fun _ => false) = .ok reached ∧
      pack = remaining excluded reached := by
  obtain ⟨⟨⟩, -, ok⟩ := bind_eq_ok.mp ok
  obtain ⟨references, read, ok⟩ := bind_eq_ok.mp ok
  obtain ⟨⟨⟩, wanted, ok⟩ := bind_eq_ok.mp ok
  obtain ⟨excluded, first, ok⟩ := bind_eq_ok.mp ok
  obtain ⟨reached, second, ok⟩ := bind_eq_ok.mp ok
  obtain ⟨⟨⟩, -, ok⟩ := bind_eq_ok.mp ok
  obtain ⟨⟨⟩, -, ok⟩ := bind_eq_ok.mp ok
  obtain ⟨⟨⟩, -, ok⟩ := bind_eq_ok.mp ok
  cases ok
  obtain ⟨some, advertises⟩ := ensure_eq_ok.mp wanted
  have read' : repository.references = .ok references := by
    cases answer : repository.references with
    | error reason =>
        rw [answer] at read
        cases read
    | ok found =>
        rw [answer] at read
        cases read
        rfl
  exact ⟨references, excluded, reached, read', some, advertises, first, second, rfl⟩

theorem stored_known {links : List ObjectId} (stored : repository.Stored x links) :
    repository.Known x := by
  obtain ⟨object, found, -⟩ := stored
  exact ⟨object, found⟩

theorem Had.wanted (had : repository.Had roots x) : repository.Wanted roots x := by
  obtain ⟨root, member, -, path⟩ := had
  exact ⟨root, member, path⟩

/-- An object that needs another one is there. -/
theorem Wanted.had (wanted : repository.Wanted roots x) :
    repository.Had roots x ∨ x ∈ roots ∧ ¬repository.Known x := by
  obtain ⟨root, member, path⟩ := wanted
  by_cases known : repository.Known root
  · exact Or.inl ⟨root, member, known, path⟩
  · rcases Relation.ReflTransGen.cases_head path with same | ⟨y, ⟨links, stored, -⟩, -⟩
    · rw [← same]
      exact Or.inr ⟨member, known⟩
    · exact absurd (stored_known stored) known

/-- **What is in the pack**, each object once: what is wanted, and what the client does not have by
what the server knows. -/
theorem writePack_mem (ok : repository.writePack wants haves = .ok pack) :
    pack.Nodup ∧ ∀ x, x ∈ pack ↔
      repository.Wanted (ids wants) x ∧ ¬repository.Had (ids haves) x := by
  obtain ⟨-, excluded, reached, -, -, -, first, second, rfl⟩ := writePack_walks ok
  obtain ⟨-, inFirst⟩ := walkReachable_mem first
  obtain ⟨distinct, inSecond⟩ := walkReachable_mem second
  have sorted : (remaining excluded reached).Perm (reached.filter fun id => decide (id ∉ excluded)) :=
    List.perm_insertionSort _ _
  refine ⟨sorted.nodup_iff.mpr (distinct.filter _), fun x => ?_⟩
  rw [sorted.mem_iff, List.mem_filter, decide_eq_true_eq, inSecond, inFirst]
  constructor
  · rintro ⟨⟨wanted, links, stored⟩, out⟩
    exact ⟨wanted, fun had => out ⟨had.wanted, links, stored⟩⟩
  · rintro ⟨wanted, out⟩
    have stored : ∃ links, repository.Stored x links := by
      rcases walkReachable_complete second wanted with stored | ⟨-, never⟩
      · exact stored
      · cases never
    refine ⟨⟨wanted, stored⟩, ?_⟩
    rintro ⟨wanted', links, stored'⟩
    rcases wanted'.had with had | ⟨-, unknown⟩
    · exact out had
    · exact unknown (stored_known stored')

theorem sendObjects_missing {objects : List ObjectId} {id : ObjectId} :
    repository.sendObjects objects ≠ .error (.missingObject id) := by
  have entries : ∀ (objects : List ObjectId) (total : Nat),
      repository.packEntries objects total ≠ .error (.missingObject id) := by
    intro objects
    induction objects with
    | nil => nofun
    | cons x rest ih =>
        intro total failed
        unfold packEntries at failed
        split at failed
        · dsimp only at failed
          split at failed
          · cases failed
          · exact ih _ failed
        · cases failed
  intro failed
  rcases bind_eq_error.mp failed with error | ⟨⟨⟩, -, failed⟩
  · cases (ensure_eq_error.mp error).2
  rcases bind_eq_error.mp failed with error | ⟨⟨⟩, -, failed⟩
  · exact entries objects 0 error
  rcases bind_eq_error.mp failed with error | ⟨⟨⟩, -, failed⟩
  · cases (ensure_eq_error.mp error).2
  · cases failed

/-- A client asks for what it may ask for. -/
structure Asks (repository : UploadRepository) (wants haves : List FormattedId) : Prop where
  formats : ∀ id ∈ wants ++ haves, id.format = repository.format
  some : wants ≠ []
  advertised : ∃ references, repository.references = .ok references ∧
    ∀ want ∈ wants, want.id ∈ advertised references

theorem Asks.writePack_eq (asks : Asks repository wants haves) :
    repository.writePack wants haves = (do
      let excluded ← repository.walkReachable (ids haves) fun id => decide (id ∈ ids haves)
      let reached ← repository.walkReachable (ids wants) fun _ => false
      repository.sendObjects (remaining excluded reached)) := by
  obtain ⟨references, read, advertises⟩ := asks.advertised
  unfold writePack
  rw [ensure_of asks.formats, ok_bind, read]
  simp only [Except.mapError, ok_bind]
  rw [ensure_of ⟨asks.some, advertises⟩, ok_bind]
  rfl

/-- An object that a want needs is missing, or one that a known object needs and the client does not
name. -/
def Lacks (repository : UploadRepository) (wants haves : List ObjectId) (x : ObjectId) : Prop :=
  repository.Missing x ∧ (repository.Wanted wants x ∨ repository.Had haves x ∧ x ∉ haves)

theorem lacks_of_missing {id : ObjectId}
    (failed : repository.writePack wants haves = .error (.missingObject id)) :
    Lacks repository (ids wants) (ids haves) id := by
  rcases bind_eq_error.mp failed with error | ⟨⟨⟩, -, failed⟩
  · cases (ensure_eq_error.mp error).2
  rcases bind_eq_error.mp failed with error | ⟨references, -, failed⟩
  · unfold Except.mapError at error
    split at error
    · cases error
    · cases error
  rcases bind_eq_error.mp failed with error | ⟨⟨⟩, -, failed⟩
  · cases (ensure_eq_error.mp error).2
  rcases bind_eq_error.mp failed with error | ⟨excluded, -, failed⟩
  · obtain ⟨wanted, missing, unnamed⟩ := walkReachable_missing error
    have unnamed := of_decide_eq_false unnamed
    rcases wanted.had with had | ⟨named, -⟩
    · exact ⟨missing, Or.inr ⟨had, unnamed⟩⟩
    · exact absurd named unnamed
  rcases bind_eq_error.mp failed with error | ⟨reached, -, failed⟩
  · obtain ⟨wanted, missing, -⟩ := walkReachable_missing error
    exact ⟨missing, Or.inl wanted⟩
  · exact absurd failed sendObjects_missing

/-- Where nothing is damaged and there is room, a pack fails for a missing object just when one is
missing. -/
theorem missing_iff_lacks (asks : Asks repository wants haves)
    (wantsRead : repository.Undamaged (ids wants)) (havesRead : repository.Undamaged (ids haves))
    (wantsLimited : repository.WithinLimit (ids wants))
    (havesLimited : repository.WithinLimit (ids haves)) :
    (∃ id, repository.writePack wants haves = .error (.missingObject id)) ↔
      ∃ x, Lacks repository (ids wants) (ids haves) x := by
  constructor
  · rintro ⟨id, failed⟩
    exact ⟨id, lacks_of_missing failed⟩
  · rintro ⟨x, missing, lacks⟩
    rw [asks.writePack_eq]
    rcases @walkReachable_cases repository (ids haves) (fun id => decide (id ∈ ids haves))
      havesRead havesLimited with ⟨excluded, first⟩ | ⟨id, failed⟩
    · rcases @walkReachable_cases repository (ids wants) (fun _ => false) wantsRead wantsLimited
        with ⟨reached, second⟩ | ⟨id, failed⟩
      · exfalso
        rcases lacks with wanted | ⟨had, unnamed⟩
        · rcases walkReachable_complete second wanted with ⟨links, object, found, -⟩ | ⟨-, never⟩
          · rw [missing] at found
            cases found
          · cases never
        · rcases walkReachable_complete first had.wanted with ⟨links, object, found, -⟩ | ⟨-, named⟩
          · rw [missing] at found
            cases found
          · exact unnamed (of_decide_eq_true named)
      · exact ⟨id, by rw [first, ok_bind, failed]; rfl⟩
    · exact ⟨id, by rw [failed]; rfl⟩

/-- **The pack completes the client.**  It is sent only for wants that are advertised; it has what the
wants need and the known objects of the client do not, each once; a client with all that those need
then has all that the wants need.  A missing object is told exactly when one is missing, where every
object that is there can be read. -/
theorem writePack_completes (repository : UploadRepository) (wants haves : List FormattedId) :
    (∀ pack, repository.writePack wants haves = .ok pack →
      (wants ≠ [] ∧ ∃ references, repository.references = .ok references ∧
        ∀ want ∈ wants, ∃ reference ∈ references,
          want.id = reference.target ∨ reference.peeled = some want.id) ∧
      pack.Nodup ∧
      (∀ x, x ∈ pack ↔ repository.Wanted (ids wants) x ∧ ¬repository.Had (ids haves) x) ∧
      ∀ client : ObjectId → Prop, (∀ x, repository.Had (ids haves) x → client x) →
        ∀ x, repository.Wanted (ids wants) x → client x ∨ x ∈ pack) ∧
    (∀ id, repository.writePack wants haves = .error (.missingObject id) →
      Lacks repository (ids wants) (ids haves) id) ∧
    (Asks repository wants haves → repository.Undamaged (ids wants) →
      repository.Undamaged (ids haves) → repository.WithinLimit (ids wants) → repository.WithinLimit (ids haves) →
      ((∃ id, repository.writePack wants haves = .error (.missingObject id)) ↔
        ∃ x, Lacks repository (ids wants) (ids haves) x)) := by
  refine ⟨fun pack ok => ?_, fun id failed => lacks_of_missing failed,
    fun asks wantsRead havesRead wantsLimited havesLimited =>
      missing_iff_lacks asks wantsRead havesRead wantsLimited havesLimited⟩
  obtain ⟨references, -, -, read, some, advertises, -⟩ := writePack_walks ok
  obtain ⟨distinct, inside⟩ := writePack_mem ok
  refine ⟨⟨some, references, read, fun want member => ?_⟩, distinct, inside, ?_⟩
  · obtain ⟨reference, listed, named⟩ := List.mem_flatMap.mp (advertises want member)
    refine ⟨reference, listed, ?_⟩
    rcases List.mem_cons.mp named with target | peeled
    · exact Or.inl target
    · exact Or.inr (Option.mem_toList.mp peeled)
  · intro client holds x wanted
    by_cases had : repository.Had (ids haves) x
    · exact Or.inl (holds x had)
    · exact Or.inr ((inside x).mpr ⟨wanted, had⟩)

/-! Pole: the commit `1` has the tree `2`, which is missing, and the parent `3`, which is damaged and
is met first. -/

def halfDamaged : UploadRepository where
  format := .sha1
  references := .ok [⟨⟨1⟩, none⟩]
  find id :=
    .ok (if id = ⟨1⟩ then some ⟨10, .commit (some (⟨2⟩, [⟨3⟩]))⟩
    else if id = ⟨3⟩ then some ⟨10, .commit none⟩
    else none)
  packLength _ := 0

theorem damaged_first :
    Asks halfDamaged [⟨.sha1, ⟨1⟩⟩] [] ∧ Lacks halfDamaged [⟨1⟩] [] ⟨2⟩ ∧
      (∀ roots : List ObjectId, roots.length ≤ 1 → halfDamaged.WithinLimit roots) ∧
      halfDamaged.writePack [⟨.sha1, ⟨1⟩⟩] [] = .error (.damagedObject ⟨3⟩) := by
  have asks : Asks halfDamaged [⟨.sha1, ⟨1⟩⟩] [] :=
    ⟨by decide, by decide, _, rfl, by decide⟩
  have link : ∀ x y, halfDamaged.Link x y → y = ⟨2⟩ ∨ y = ⟨3⟩ := by
    rintro x y ⟨links, ⟨object, found, parsed⟩, member⟩
    unfold halfDamaged at found
    dsimp only at found
    split at found
    · cases found
      cases parsed
      simpa using member
    · split at found
      · cases found
        cases parsed
      · cases found
  refine ⟨asks, ⟨rfl, Or.inl ⟨⟨1⟩, List.mem_singleton_self _, .single ?_⟩⟩, fun roots few => ?_, ?_⟩
  · exact ⟨[⟨2⟩, ⟨3⟩], ⟨_, rfl, rfl⟩, List.mem_cons_self⟩
  · refine ⟨⟨2⟩ :: ⟨3⟩ :: roots, ?_, ?_⟩
    · rw [List.length_cons, List.length_cons]
      unfold maxObjectsPerPack
      omega
    · rintro x ⟨root, member, path⟩
      rcases Relation.ReflTransGen.cases_tail path with same | ⟨y, -, last⟩
      · rw [same]
        exact List.mem_cons_of_mem _ (List.mem_cons_of_mem _ member)
      · rcases link y x last with rfl | rfl
        · exact List.mem_cons_self
        · exact List.mem_cons_of_mem _ List.mem_cons_self
  · have first : halfDamaged.walkReachable [] (fun id => decide (id ∈ ids [])) =
        .ok [] := by
      unfold walkReachable
      simp [search, Except.map]
    have second : halfDamaged.walkReachable [⟨1⟩] (fun _ => false) =
        .error (.damagedObject ⟨3⟩) := by
      unfold walkReachable
      simp [search, Except.map, walking, expandObject, halfDamaged, maxObjectsPerPack,
        ObjectData.links, Discipline.stack]
    rw [asks.writePack_eq]
    show (halfDamaged.walkReachable [] _ >>= fun _ => halfDamaged.walkReachable [⟨1⟩] _ >>= _) = _
    rw [first, ok_bind, second]
    rfl

end UploadRepository

end Tit.Git
