/-
# Git.Transport -- the repository that a Git command names

A client names a repository in the command it sends over SSH.  The name is cut out of the command,
checked by `valid_name` and looked up with the policy; the repository is then the directory of the
identifier that the store holds.

`create_repository` checks names with grammars of its own.  `names_agree_iff` says which of the
names that it accepts can be cloned and pushed: those without two dots in a row.
-/
import Tit.Policy.Repository
import Mathlib.Data.List.Infix

namespace Tit.Git

open Tit.Theory Tit.Store Tit.Policy

set_option autoImplicit false

/-- A path, by its components. -/
abbrev Path := List String

inductive RepositoryPathError where
  | invalidName
  | invalidCommand
  | repository (path : Path)
  | outsideRoot
  | unauthorized
  deriving DecidableEq, Repr

/-- `managedPublic` is the catalog without a policy, `policy` the database that a policy reads. -/
structure GitRepositories where
  root : Path
  managedPublic : Option (String × String → Option Identifier)
  policy : Option Database

inductive GitSshService where
  | upload (path : Path)
  | receive (path : Path) (owner repository : String)
  deriving DecidableEq, Repr

/-! ## Names -/

/-- `valid_name`, on the characters of a name. -/
def validName (value : String) (maximum : Nat) : Bool :=
  let edge : Char → Bool := fun c => c == '.' || c == '-' || c == '_'
  lengthBetween 1 maximum value &&
    value.toList.all (fun c => c.isLower || c.isDigit || c == '.' || c == '_' || c == '-') &&
    !value.toList.head?.any edge && !value.toList.getLast?.any edge &&
    !decide (['.', '.'] <:+: value.toList)

/-- `repository.strip_suffix(".git").unwrap_or(repository)`. -/
def stripGit (repository : String) : String :=
  match ['.', 'g', 'i', 't'].isSuffixOf? repository.toList with
  | some name => String.ofList name
  | none => repository

def quote : Char := Char.ofNat 39

def uploadPrefix : String := "git-upload-pack " ++ String.singleton quote

def receivePrefix : String := "git-receive-pack " ++ String.singleton quote

def parseSshRepository (command : ByteArray) (before : String) :
    Except RepositoryPathError (String × String) := do
  let command ← required (String.fromUTF8? command) .invalidCommand
  let path ← required
    ((before.toList.isPrefixOf? command.toList).bind fun value => [quote].isSuffixOf? value)
    .invalidCommand
  ensure (quote ∉ path) .invalidCommand
  let path := (['/'].isPrefixOf? path).getD path
  match path.splitOn '/' with
  | [owner, repository] => .ok (String.ofList owner, stripGit (String.ofList repository))
  | _ => .error .invalidCommand

/-! ## Repositories -/

namespace GitRepositories

/-- The directory of a managed repository. -/
def directory (git : GitRepositories) (id : Identifier) : Path := git.root ++ [id.toHex ++ ".git"]

def candidate (git : GitRepositories) (actor : Option String) (owner repository : String)
    (operation : RepositoryOperation) : Except RepositoryPathError Path :=
  match git.policy with
  | some db =>
      match authorize db actor owner repository operation with
      | .ok record => .ok (git.directory record.id)
      | .error _ => .error .unauthorized
  | none =>
      match git.managedPublic with
      | some repositories =>
          match repositories (owner, repository) with
          | some id => .ok (git.directory id)
          | none => .error (.repository (git.root ++ [owner, repository]))
      | none => .ok (git.root ++ [owner, repository ++ ".git"])

def resolveFor (canonicalize : Path → Option Path) (git : GitRepositories)
    (actor : Option String) (owner repository : String) (operation : RepositoryOperation) :
    Except RepositoryPathError Path := do
  ensure (validName owner 40 = true) .invalidName
  let repository := stripGit repository
  ensure (validName repository 100 = true) .invalidName
  let candidate ← git.candidate actor owner repository operation
  let resolved ← required (canonicalize candidate) (.repository candidate)
  ensure (git.root <+: resolved) .outsideRoot
  pure resolved

def resolveSshServiceFor (canonicalize : Path → Option Path) (git : GitRepositories)
    (actor : Option String) (command : ByteArray) : Except RepositoryPathError GitSshService :=
  if "git-upload-pack ".toUTF8.data.toList.isPrefixOf command.data.toList then do
    let (owner, repository) ← parseSshRepository command uploadPrefix
    let path ← git.resolveFor canonicalize actor owner repository .read
    pure (.upload path)
  else do
    let (owner, repository) ← parseSshRepository command receivePrefix
    let path ← git.resolveFor canonicalize actor owner repository .write
    pure (.receive path owner repository)

end GitRepositories

/-! ## The names that both sides accept -/

section Names

variable {owner slug name : String} {c : Char}

/-- A character that begins or ends a name is no separator. -/
theorem not_separator (alphanumeric : (c.isLower || c.isDigit) = true) :
    (c == '.' || c == '-' || c == '_') = false := by
  rw [Bool.eq_false_iff]
  intro separator
  simp only [Bool.or_eq_true, beq_iff_eq] at separator
  rcases separator with (rfl | rfl) | rfl <;> cases alphanumeric

theorem any_false {found : Option Char} {good bad : Char → Bool} (all : found.any good = true)
    (apart : ∀ c, good c = true → bad c = false) : found.any bad = false := by
  cases found with
  | none => rfl
  | some c => exact apart c all

/-- The two grammars of a repository's name differ by two dots in a row. -/
theorem validName_slug (named : validateSlug slug = true) :
    validName slug 100 = true ↔ ¬['.', '.'] <:+: slug.toList := by
  simp only [validateSlug, Bool.and_eq_true] at named
  obtain ⟨⟨⟨⟨⟨length, -⟩, -⟩, characters⟩, first⟩, last⟩ := named
  have first' := any_false first fun _ => not_separator
  have last' := any_false last fun _ => not_separator
  simp only [validName, length, characters, first', last', Bool.not_false, Bool.and_true,
    Bool.true_and, Bool.not_eq_true', decide_eq_false_iff_not]

/-- A name of an account or an organization is fine for both. -/
theorem validName_username (named : validateUsername owner = true) : validName owner 40 = true := by
  simp only [validateUsername, Bool.and_eq_true, List.all_eq_true] at named
  obtain ⟨⟨⟨⟨length, first⟩, last⟩, characters⟩, -⟩ := named
  have first' := any_false first fun _ => not_separator
  have last' := any_false last fun _ => not_separator
  have dotless : '.' ∉ owner.toList := fun dot => nomatch characters _ dot
  have apart : ¬['.', '.'] <:+: owner.toList := fun dots => dotless (dots.subset List.mem_cons_self)
  have characters' : owner.toList.all
      (fun c => c.isLower || c.isDigit || c == '.' || c == '_' || c == '-') = true := by
    rw [List.all_eq_true]
    intro c member
    have known := characters c member
    simp only [Bool.or_eq_true] at known ⊢
    tauto
  simp only [validName, length, characters', first', last', decide_eq_false apart, Bool.not_false,
    Bool.and_true]

/-- The name of a repository does not end as the directory of one does. -/
theorem stripGit_slug (named : validateSlug slug = true) : stripGit slug = slug := by
  simp only [validateSlug, Bool.and_eq_true, decide_eq_true_eq] at named
  obtain ⟨⟨⟨⟨⟨-, suffix⟩, -⟩, -⟩, -⟩, -⟩ := named
  unfold stripGit
  cases stripped : ['.', 'g', 'i', 't'].isSuffixOf? slug.toList with
  | none => rfl
  | some name =>
      rw [List.isSuffixOf?_eq_some_iff_append_eq] at stripped
      refine absurd ?_ suffix
      rw [← String.length_toList, ← stripped, List.length_append]
      exact List.drop_left' (by simp)

theorem stripGit_append : stripGit (slug ++ ".git") = slug := by
  have stripped : ['.', 'g', 'i', 't'].isSuffixOf? (slug ++ ".git").toList = some slug.toList := by
    rw [List.isSuffixOf?_eq_some_iff_append_eq, String.toList_append]
    rfl
  simp only [stripGit, stripped, String.ofList_toList]

end Names

/-! ## Commands -/

/-- The services of a push client and of a fetch client. -/
inductive GitService where
  | uploadPack
  | receivePack
  deriving DecidableEq, Repr

namespace GitService

def operation : GitService → RepositoryOperation
  | .uploadPack => .read
  | .receivePack => .write

def before : GitService → String
  | .uploadPack => uploadPrefix
  | .receivePack => receivePrefix

/-- The command that a client sends for a path. -/
def command (service : GitService) (path : String) : String :=
  service.before ++ path ++ String.singleton quote

/-- What the command is to be answered with. -/
def resolved (service : GitService) (path : Path) (owner slug : String) : GitSshService :=
  match service with
  | .uploadPack => .upload path
  | .receivePack => .receive path owner slug

end GitService

/-- The ways to write the path of a repository. -/
def spellings (owner slug : String) : List String :=
  [owner ++ "/" ++ slug, owner ++ "/" ++ slug ++ ".git", "/" ++ owner ++ "/" ++ slug,
    "/" ++ owner ++ "/" ++ slug ++ ".git"]

section Commands

variable {owner slug path : String} {service : GitService} {actor : Option String}
  {canonicalize : Path → Option Path} {git : GitRepositories}

theorem not_mem_username (named : validateUsername owner = true) {c : Char}
    (other : (c.isLower || c.isDigit || c == '-') = false) : c ∉ owner.toList := by
  simp only [validateUsername, Bool.and_eq_true, List.all_eq_true] at named
  intro member
  rw [named.1.2 c member] at other
  cases other

theorem not_mem_slug (named : validateSlug slug = true) {c : Char}
    (other : (c.isLower || c.isDigit || c == '.' || c == '_' || c == '-') = false) :
    c ∉ slug.toList := by
  simp only [validateSlug, Bool.and_eq_true, List.all_eq_true] at named
  intro member
  rw [named.1.1.2 c member] at other
  cases other

/-- The path of a command, when it has no quote in it. -/
theorem parse_command (unquoted : quote ∉ path.toList) :
    parseSshRepository (service.command path).toUTF8 service.before =
      match (((['/'].isPrefixOf? path.toList).getD path.toList).splitOn '/') with
      | [owner, repository] => .ok (String.ofList owner, stripGit (String.ofList repository))
      | _ => .error .invalidCommand := by
  have decoded : String.fromUTF8? (service.command path).toUTF8 = some (service.command path) :=
    dif_pos (service.command path).isValidUTF8
  have first : service.before.toList.isPrefixOf? (service.command path).toList =
      some (path.toList ++ [quote]) := by
    rw [List.isPrefixOf?_eq_some_iff_append_eq, GitService.command, String.toList_append,
      String.toList_append, List.append_assoc, String.toList_singleton]
  have last : [quote].isSuffixOf? (path.toList ++ [quote]) = some path.toList := by
    rw [List.isSuffixOf?_eq_some_iff_append_eq]
  simp only [parseSshRepository, decoded, first, last, required_some, ok_bind, Option.bind_some,
    ensure_of unquoted]

/-- The two components of a path, with or without a slash in front. -/
theorem components {owner repository : List Char} (plain : '/' ∉ owner) (plain' : '/' ∉ repository)
    (named : owner ≠ []) {path : List Char}
    (spelled : path = owner ++ '/' :: repository ∨ path = '/' :: (owner ++ '/' :: repository)) :
    ((['/'].isPrefixOf? path).getD path).splitOn '/' = [owner, repository] := by
  have stripped : (['/'].isPrefixOf? path).getD path = owner ++ '/' :: repository := by
    rcases spelled with rfl | rfl
    · cases owner with
      | nil => exact absurd rfl named
      | cons c owner =>
          rw [List.mem_cons, not_or] at plain
          have other : ('/' == c) = false := beq_false_of_ne plain.1
          simp only [List.cons_append, List.isPrefixOf?, other, Bool.false_eq_true, if_false,
            Option.getD_none]
    · rfl
  have joined : owner ++ '/' :: repository = ['/'].intercalate [owner, repository] := by
    simp [List.intercalate]
  rw [stripped, joined, List.splitOn_intercalate _ _ (List.cons_ne_nil _ _)]
  intro component member
  rcases List.mem_cons.mp member with rfl | member'
  · exact plain
  · rwa [List.mem_singleton.mp member']

theorem spelling_toList (spelled : path ∈ spellings owner slug) :
    ∃ repository, (repository = slug ∨ repository = slug ++ ".git") ∧
      (path.toList = owner.toList ++ '/' :: repository.toList ∨
        path.toList = '/' :: (owner.toList ++ '/' :: repository.toList)) := by
  simp only [spellings, List.mem_cons, List.not_mem_nil, or_false] at spelled
  rcases spelled with rfl | rfl | rfl | rfl
  · exact ⟨slug, .inl rfl, .inl (by simp)⟩
  · exact ⟨slug ++ ".git", .inr rfl, .inl (by simp)⟩
  · exact ⟨slug, .inl rfl, .inr (by simp)⟩
  · exact ⟨slug ++ ".git", .inr rfl, .inr (by simp)⟩

/-- Each spelling is cut into the owner and the name that it was made of. -/
theorem parse_spelling (username : validateUsername owner = true) (named : validateSlug slug = true)
    (spelled : path ∈ spellings owner slug) :
    parseSshRepository (service.command path).toUTF8 service.before = .ok (owner, slug) := by
  obtain ⟨repository, spelling, text⟩ := spelling_toList spelled
  have outside {c : Char} (inOwner : c ∉ owner.toList) (inSlug : c ∉ slug.toList)
      (inSuffix : c ∉ ".git".toList) : c ∉ owner.toList ∧ c ∉ repository.toList := by
    refine ⟨inOwner, ?_⟩
    rcases spelling with rfl | rfl
    · exact inSlug
    · rw [String.toList_append, List.mem_append, not_or]
      exact ⟨inSlug, inSuffix⟩
  have unquoted := outside (not_mem_username username (c := quote) (by decide))
    (not_mem_slug named (by decide)) (by decide)
  have unslashed := outside (not_mem_username username (c := '/') (by decide))
    (not_mem_slug named (by decide)) (by decide)
  have some : owner.toList ≠ [] := by
    intro empty
    simp [validateUsername, empty] at username
  have stripped : stripGit repository = slug := by
    rcases spelling with rfl | rfl
    · exact stripGit_slug named
    · exact stripGit_append
  have unquoted' : quote ∉ path.toList := by
    have slash : quote ≠ '/' := by decide
    rcases text with text | text <;> rw [text] <;>
      simp only [List.mem_append, List.mem_cons, unquoted, slash, or_false, not_false_eq_true]
  rw [parse_command unquoted', components unslashed.1 unslashed.2 some text]
  simp only [String.ofList_toList, stripped]

theorem utf8_append (s t : String) :
    (s ++ t).toUTF8.data.toList = s.toUTF8.data.toList ++ t.toUTF8.data.toList :=
  ByteArray.toList_data_append

/-- Which service the bytes of a command ask for. -/
theorem command_service : "git-upload-pack ".toUTF8.data.toList.isPrefixOf
    (service.command path).toUTF8.data.toList = decide (service = .uploadPack) := by
  cases service with
  | uploadPack =>
      show List.isPrefixOf _ ("git-upload-pack " ++ _ ++ path ++ _ : String).toUTF8.data.toList = true
      rw [utf8_append, utf8_append, utf8_append, List.append_assoc, List.append_assoc]
      exact List.isPrefixOf_iff_prefix.mpr (List.prefix_append _ _)
  | receivePack =>
      show List.isPrefixOf _ ("git-receive-pack " ++ _ ++ path ++ _ : String).toUTF8.data.toList =
        false
      rw [utf8_append, utf8_append, utf8_append, List.append_assoc, List.append_assoc]
      refine Bool.eq_false_iff.mpr fun same => ?_
      obtain ⟨_, bytes⟩ := List.isPrefixOf_iff_prefix.mp same
      -- the fifth byte tells the two services apart
      have first := congrArg (List.take 5) bytes
      rw [List.take_append_of_le_length (by decide), List.take_append_of_le_length (by decide)]
        at first
      exact absurd first (by decide)

/-- What the policy allows is looked up in the directory of the repository's identifier. -/
theorem resolveFor_allowed {db : Database} (served : git.policy = some db)
    (username : validateUsername owner = true) (named : validateSlug slug = true)
    {operation : RepositoryOperation} {record : RepositoryRecord}
    (allowed : authorize db actor owner slug operation = .ok record)
    (stored : canonicalize (git.directory record.id) = some (git.directory record.id)) :
    git.resolveFor canonicalize actor owner slug operation =
      if ['.', '.'] <:+: slug.toList then .error .invalidName
      else .ok (git.directory record.id) := by
  have found : git.candidate actor owner slug operation = .ok (git.directory record.id) := by
    simp only [GitRepositories.candidate, served, allowed]
  have inside : git.root <+: git.directory record.id := List.prefix_append _ _
  simp only [GitRepositories.resolveFor, ensure_of (validName_username username), ok_bind,
    stripGit_slug named]
  by_cases dots : ['.', '.'] <:+: slug.toList
  · have refused : ¬validName slug 100 = true := fun valid => (validName_slug named).mp valid dots
    simp only [ensure_of_not refused, error_bind, if_pos dots]
  · simp only [ensure_of ((validName_slug named).mpr dots), if_neg dots, ok_bind, found, stored,
      required_some, ensure_of inside, pure_eq_ok]

/-- What a command for a repository that the actor may use is answered with. -/
theorem resolve_spelling {db : Database} (served : git.policy = some db)
    (username : validateUsername owner = true) (named : validateSlug slug = true)
    {record : RepositoryRecord}
    (allowed : authorize db actor owner slug service.operation = .ok record)
    (stored : canonicalize (git.directory record.id) = some (git.directory record.id))
    (spelled : path ∈ spellings owner slug) :
    git.resolveSshServiceFor canonicalize actor (service.command path).toUTF8 =
      if ['.', '.'] <:+: slug.toList then .error .invalidName
      else .ok (service.resolved (git.directory record.id) owner slug) := by
  have parsed : parseSshRepository (service.command path).toUTF8 service.before = .ok (owner, slug) :=
    parse_spelling username named spelled
  have resolved := resolveFor_allowed served username named allowed stored
  unfold GitRepositories.resolveSshServiceFor
  rw [command_service]
  cases service with
  | uploadPack =>
      have parsed' : parseSshRepository (GitService.uploadPack.command path).toUTF8 uploadPrefix =
          .ok (owner, slug) := parsed
      have resolved' : git.resolveFor canonicalize actor owner slug .read = _ := resolved
      rw [if_pos (by decide), parsed', ok_bind]
      simp only [resolved']
      by_cases dots : ['.', '.'] <:+: slug.toList
      · rw [if_pos dots, if_pos dots]
        rfl
      · rw [if_neg dots, if_neg dots]
        rfl
  | receivePack =>
      have parsed' : parseSshRepository (GitService.receivePack.command path).toUTF8 receivePrefix =
          .ok (owner, slug) := parsed
      have resolved' : git.resolveFor canonicalize actor owner slug .write = _ := resolved
      rw [if_neg (by decide), parsed', ok_bind]
      simp only [resolved']
      by_cases dots : ['.', '.'] <:+: slug.toList
      · rw [if_pos dots, if_pos dots]
        rfl
      · rw [if_neg dots, if_neg dots]
        rfl

end Commands

/-- **Which stored names a Git client can use.**  Of the repositories whose names
`create_repository` accepts, those without two dots in a row are reached by every spelling of the
name, and the others by none. -/
theorem names_agree_iff (canonicalize : Path → Option Path) (git : GitRepositories) (db : Database)
    (served : git.policy = some db) (actor : Option String) (owner slug : String)
    (username : validateUsername owner = true) (named : validateSlug slug = true)
    (service : GitService) (record : RepositoryRecord)
    (allowed : authorize db actor owner slug service.operation = .ok record)
    (stored : canonicalize (git.directory record.id) = some (git.directory record.id)) :
    (∀ path ∈ spellings owner slug,
      git.resolveSshServiceFor canonicalize actor (service.command path).toUTF8 =
        .ok (service.resolved (git.directory record.id) owner slug)) ↔
      ¬['.', '.'] <:+: slug.toList := by
  constructor
  · intro reached dots
    have spelled : owner ++ "/" ++ slug ∈ spellings owner slug := List.mem_cons_self
    have resolved := reached _ spelled
    rw [resolve_spelling served username named allowed stored spelled, if_pos dots] at resolved
    cases resolved
  · intro dots path spelled
    rw [resolve_spelling served username named allowed stored spelled, if_neg dots]

/-! ## Pole: a repository that nobody can clone -/

/-- The store of an administrator who creates a repository of this name. -/
def createsRepository (slug : String) : Except StoreError Database := do
  let db ← Database.createInitialAdministrator .initial
    { username := "alice", canonicalKey := "k1", fingerprint := "f1", recoveryHash := 0,
      createdAt := 0 }
  db.createRepository
    { id := 1, owner := "alice", slug, objectFormat := .sha1, defaultBranch := "refs/heads/main",
      createdAt := 0, origin := .created, initialReferences := [], actor := "alice",
      correlationId := "c" }

def servedFrom (db : Database) : GitRepositories := ⟨["srv"], none, some db⟩

/-- The creation of the repository went through, and its owner may read it. -/
def storedFor (slug : String) : Except StoreError (Database × RepositoryRecord) := do
  let db ← createsRepository slug
  match authorize db (some "alice") "alice" slug .read with
  | .ok record => .ok (db, record)
  | .error _ => .error (.repositoryNotFound "alice" slug)

theorem exists_stored {slug : String} (found : (storedFor slug).toOption.isSome = true) :
    ∃ db record, createsRepository slug = .ok db ∧
      authorize db (some "alice") "alice" slug .read = .ok record := by
  obtain ⟨⟨db, record⟩, found⟩ := Option.isSome_iff_exists.mp found
  obtain ⟨db', created, rest⟩ := bind_eq_ok.mp (ok_of_toOption found)
  cases allowed : authorize db' (some "alice") "alice" slug .read with
  | error error =>
      rw [allowed] at rest
      cases rest
  | ok record' => exact ⟨db', record', created, allowed⟩

/-- A name with single dots is reached. -/
theorem single_dot_reached :
    ∃ db record, createsRepository "a.b" = .ok db ∧
      authorize db (some "alice") "alice" "a.b" .read = .ok record ∧
      ∀ path ∈ spellings "alice" "a.b",
        (servedFrom db).resolveSshServiceFor some (some "alice")
            (GitService.uploadPack.command path).toUTF8 =
          .ok (.upload ((servedFrom db).directory record.id)) := by
  obtain ⟨db, record, created, allowed⟩ := @exists_stored "a.b" (by decide)
  refine ⟨db, record, created, allowed, ?_⟩
  exact (names_agree_iff some (servedFrom db) db rfl (some "alice") "alice" "a.b" (by decide)
    (by decide) .uploadPack record allowed rfl).mpr (by decide)

/-- The names are accepted and the repository is stored; its owner cannot clone it. -/
theorem dotted_unreachable :
    validateUsername "alice" = true ∧ validateSlug "a..b" = true ∧
    ∃ db record, createsRepository "a..b" = .ok db ∧
      authorize db (some "alice") "alice" "a..b" .read = .ok record ∧
      ¬∀ path ∈ spellings "alice" "a..b",
        (servedFrom db).resolveSshServiceFor some (some "alice")
            (GitService.uploadPack.command path).toUTF8 =
          .ok (.upload ((servedFrom db).directory record.id)) := by
  have username : validateUsername "alice" = true := by decide
  have named : validateSlug "a..b" = true := by decide
  obtain ⟨db, record, created, allowed⟩ := @exists_stored "a..b" (by decide)
  refine ⟨username, named, db, record, created, allowed, fun reached => ?_⟩
  have spelled : "alice" ++ "/" ++ "a..b" ∈ spellings "alice" "a..b" := List.mem_cons_self
  have resolved := @resolve_spelling "alice" "a..b" _ .uploadPack _ some (servedFrom db) db rfl
    username named record allowed rfl spelled
  rw [reached _ spelled, if_pos (by decide)] at resolved
  cases resolved

end Tit.Git
