/-
# Http.Router -- the addresses of accounts and repositories

The router serves accounts, organizations and repositories under their names, beside the pages of
the instance itself.  The routes are those of the source, in its order; `dispatchGet` finds the
handler of a GET request.

`served_iff` says which names get the addresses that are meant for them: all but those that are
the first segment of a page of the instance and that `validate_username` does not reserve.
-/
import Tit.Theory.Routes
import Tit.Store.Directory

namespace Tit.Http

open Tit.Theory.Routes Tit.Store

set_option autoImplicit false

/-! ## The routes -/

/-- The handlers.  Where two modules of the source share a name, the module stands in front. -/
inductive Handler where
  | home | health | metrics | signupForm | signup | recoveryForm | recover | loginForm
  | loginChallenge | loginSsh | loginSshComplete | loginVerify | loginVerifyFile
  | loginChallengeDownload | accountPage | createPage | createRepositoryPage
  | createOrganizationPage | updateProfile | createRepository | createOrganization
  | updateOrganizationProfile | setOrganizationMember | removeOrganizationMember | beginKeyAdd
  | completeKeyAdd | beginKeyRevoke | completeKeyRevoke | logoutForm | logout | style
  | spaceMonoRegular | spaceMonoBold | publicProfile | feedTokens | issueToken | rotateToken
  | revokeToken | feedsRssFeed | activity | metadataSearch | watchPage | setWatch | issueList
  | createIssue | issueDetail | editIssue | commentIssue | changeState | pullRequestList
  | openPullRequest | pullRequestDetail | revisePullRequest | downloadRevisionPatch
  | editPullRequest | changePullRequestState | createReview | mergePullRequest | settings
  | updateGeneral | updateCollaborator | updateDefaultBranch | rename | settingsArchive
  | unarchive | infoRefs | gitUploadPack | refs | publicRssFeed | issueRssFeed
  | pullRequestRssFeed | publicSearch | commits | commit | diff | treeRoot | tree | blob | raw
  | blame | publicArchive | summary
  deriving DecidableEq, Repr

/-- The handlers of a route, by method. -/
structure MethodRouter where
  get : Option Handler
  post : Option Handler
  deriving DecidableEq, Repr

def get (handler : Handler) : MethodRouter := ⟨some handler, none⟩

def post (handler : Handler) : MethodRouter := ⟨none, some handler⟩

def both (getHandler postHandler : Handler) : MethodRouter := ⟨some getHandler, some postHandler⟩

abbrev Router := List (List Segment × MethodRouter)

/-- A route below the address of a repository. -/
def repository (pattern : List Segment) (methods : MethodRouter) : List Segment × MethodRouter :=
  (.param "owner" :: .param "repository" :: pattern, methods)

def feedsRoutes : Router :=
  [([.static "feeds"], get .feedTokens),
   ([.static "feeds", .static "tokens"], post .issueToken),
   ([.static "feeds", .static "tokens", .param "id", .static "rotate"], post .rotateToken),
   ([.static "feeds", .static "tokens", .param "id", .static "revoke"], post .revokeToken),
   ([.static "feeds", .param "token", .static "rss.xml"], get .feedsRssFeed),
   ([.static "activity"], get .activity)]

def metadataSearchRoutes : Router :=
  [([.static "search"], get .metadataSearch)]

def watchesRoutes : Router :=
  [repository [.static "watch"] (both .watchPage .setWatch)]

def issuesRoutes : Router :=
  [repository [.static "issues"] (both .issueList .createIssue),
   repository [.static "issues", .param "number"] (get .issueDetail),
   repository [.static "issues", .param "number", .static "edit"] (post .editIssue),
   repository [.static "issues", .param "number", .static "comments"] (post .commentIssue),
   repository [.static "issues", .param "number", .static "state"] (post .changeState)]

def pullRequestsRoutes : Router :=
  [repository [.static "pulls"] (both .pullRequestList .openPullRequest),
   repository [.static "pulls", .param "number"] (get .pullRequestDetail),
   repository [.static "pulls", .param "number", .static "revisions"] (post .revisePullRequest),
   repository [.static "pulls", .param "number", .static "revisions", .param "revision"]
     (get .downloadRevisionPatch),
   repository [.static "pulls", .param "number", .static "edit"] (post .editPullRequest),
   repository [.static "pulls", .param "number", .static "state"] (post .changePullRequestState),
   repository [.static "pulls", .param "number", .static "reviews"] (post .createReview),
   repository [.static "pulls", .param "number", .static "merge"] (post .mergePullRequest)]

def repositorySettingsRoutes : Router :=
  [repository [.static "settings"] (get .settings),
   repository [.static "settings", .static "general"] (post .updateGeneral),
   repository [.static "settings", .static "collaborators"] (post .updateCollaborator),
   repository [.static "settings", .static "default-branch"] (post .updateDefaultBranch),
   repository [.static "settings", .static "rename"] (post .rename),
   repository [.static "settings", .static "archive"] (post .settingsArchive),
   repository [.static "settings", .static "unarchive"] (post .unarchive)]

def publicRoutes : Router :=
  [repository [.static "info", .static "refs"] (get .infoRefs),
   repository [.static "git-upload-pack"] (post .gitUploadPack),
   repository [.static "refs"] (get .refs),
   repository [.static "rss.xml"] (get .publicRssFeed),
   repository [.static "issues", .static "rss.xml"] (get .issueRssFeed),
   repository [.static "pulls", .static "rss.xml"] (get .pullRequestRssFeed),
   repository [.static "search"] (get .publicSearch),
   repository [.static "commits"] (get .commits),
   repository [.static "commit", .param "commit"] (get .commit),
   repository [.static "diff", .param "old", .param "new"] (get .diff),
   repository [.static "tree", .param "commit"] (get .treeRoot),
   repository [.static "tree", .param "commit", .rest "path"] (get .tree),
   repository [.static "blob", .param "commit", .rest "path"] (get .blob),
   repository [.static "raw", .param "commit", .rest "path"] (get .raw),
   repository [.static "blame", .param "commit", .rest "path"] (get .blame),
   repository [.static "archive", .param "archive"] (get .publicArchive),
   repository [] (get .summary)]

/-- The pages of the instance. -/
def instanceRoutes : Router :=
  [([.static ""], get .home),
   ([.static "healthz"], get .health),
   ([.static "metrics"], get .metrics),
   ([.static "signup"], both .signupForm .signup),
   ([.static "recover"], both .recoveryForm .recover),
   ([.static "login"], both .loginForm .loginChallenge),
   ([.static "login", .static "ssh"], post .loginSsh),
   ([.static "login", .static "ssh", .static "complete"], post .loginSshComplete),
   ([.static "login", .static "verify"], post .loginVerify),
   ([.static "login", .static "verify-file"], post .loginVerifyFile),
   ([.static "login", .static "challenge.txt"], post .loginChallengeDownload),
   ([.static "account"], get .accountPage),
   ([.static "new"], get .createPage),
   ([.static "new", .static "repository"], get .createRepositoryPage),
   ([.static "new", .static "organization"], get .createOrganizationPage),
   ([.static "account", .static "profile"], post .updateProfile),
   ([.static "account", .static "repositories"], post .createRepository),
   ([.static "organizations"], post .createOrganization),
   ([.static "organizations", .param "organization", .static "profile"],
     post .updateOrganizationProfile),
   ([.static "organizations", .param "organization", .static "members"],
     post .setOrganizationMember),
   ([.static "organizations", .param "organization", .static "members", .static "remove"],
     post .removeOrganizationMember),
   ([.static "account", .static "keys", .static "add"], post .beginKeyAdd),
   ([.static "account", .static "keys", .static "add", .static "complete"], post .completeKeyAdd),
   ([.static "account", .static "keys", .static "revoke"], post .beginKeyRevoke),
   ([.static "account", .static "keys", .static "revoke", .static "complete"],
     post .completeKeyRevoke),
   ([.static "logout"], both .logoutForm .logout),
   ([.static "assets", .static "style.css"], get .style),
   ([.static "assets", .static "SpaceMono-Regular.ttf"], get .spaceMonoRegular),
   ([.static "assets", .static "SpaceMono-Bold.ttf"], get .spaceMonoBold)]

def repositoryRoutes : Router :=
  metadataSearchRoutes ++ watchesRoutes ++ issuesRoutes ++ pullRequestsRoutes ++
    repositorySettingsRoutes ++ publicRoutes

def router : Router :=
  instanceRoutes ++ feedsRoutes ++ repositoryRoutes ++ [([.param "username"], get .publicProfile)]

inductive Dispatch where
  | handled (handler : Handler) (params : List String)
  | methodNotAllowed
  | notFound
  deriving DecidableEq, Repr

/-- What a GET request for the path is answered by. -/
def dispatchGet (path : String) : Dispatch :=
  match find (segments path) router with
  | none => .notFound
  | some (methods, params) =>
      match methods.get with
      | some handler => .handled handler params
      | none => .methodNotAllowed

/-! ## The addresses that names are meant to have -/

/-- The pages of a repository that a GET request reads. -/
def pages : List (String × Handler) :=
  [("refs", .refs), ("commits", .commits), ("search", .publicSearch), ("issues", .issueList),
   ("pulls", .pullRequestList), ("watch", .watchPage), ("settings", .settings),
   ("rss.xml", .publicRssFeed), ("info/refs", .infoRefs)]

/-- The account or organization, the repository and its pages are where their names say. -/
def Served (name slug : String) : Prop :=
  dispatchGet ("/" ++ name) = .handled .publicProfile [name] ∧
  dispatchGet ("/" ++ name ++ "/" ++ slug) = .handled .summary [name, slug] ∧
  ∀ page ∈ pages, dispatchGet ("/" ++ name ++ "/" ++ slug ++ "/" ++ page.1) =
    .handled page.2 [name, slug]

instance (name slug : String) : Decidable (Served name slug) :=
  inferInstanceAs (Decidable (_ ∧ _ ∧ _))

/-- The first segments of the instance's own pages that are a name someone can take. -/
def fixedNames : List String :=
  ["healthz", "metrics", "signup", "recover", "login", "account", "new", "organizations", "logout",
   "search", "activity"]

/-- The pages of the instance that have the form of a repository's address. -/
def fixedPairs : List (String × String) :=
  [("login", "ssh"), ("login", "verify"), ("login", "verify-file"), ("login", "challenge.txt"),
   ("new", "repository"), ("new", "organization"), ("account", "profile"),
   ("account", "repositories")]

/-! ## What the routes of the instance can match -/

theorem heads_profile : ∀ name ∈ heads [] router, name = "" ∨ name ∈ reservedSlugs ∨
    name ∈ fixedNames := by
  decide

/-- No address below a repository is taken by a page of the instance. -/
theorem heads_pages : ∀ page ∈ pages,
    ∀ name ∈ heads (none :: (segments ("/" ++ page.1)).map some) router, name ∈ reservedSlugs := by
  decide

/-- The pair of a page of the instance that has the form of a repository's address. -/
def staticPair : List Segment → Option (String × String)
  | [.static name, .static slug] => some (name, slug)
  | _ => none

theorem heads_summary : ∀ route ∈ router, ∀ head ∈ route.1.head?, head.isParam = false →
    couldMatch route.1.tail [none] = true →
    (staticPair route.1).any (fun pair =>
      decide (pair.1 ∈ reservedSlugs ∨ pair ∈ fixedPairs)) = true := by
  decide

/-! ## The routes of a repository -/

/-- The routes whose first segment is an account or an organization. -/
def ownerRoutes : Router := advance Segment.isParam router

theorem ownerRoutes_profile : find [] ownerRoutes = some (get .publicProfile, []) := by
  decide

theorem ownerRoutes_static (known : List (Option String)) : heads known ownerRoutes = [] := by
  rfl

/-- What the routes below the address of a repository answer a GET request with. -/
def below (path : String) : Option Handler :=
  (find (segments path) (advance Segment.isParam ownerRoutes)).bind fun found =>
    if found.2 = [] then found.1.get else none

theorem below_pages : ∀ page ∈ pages, below ("/" ++ page.1) = some page.2 := by
  decide

theorem username_plain {name : String} (username : validateUsername name = true) :
    '/' ∉ name.toList ∧ name ≠ "" ∧ name ∉ reservedSlugs := by
  simp only [validateUsername, Bool.and_eq_true, List.all_eq_true, decide_eq_true_eq,
    lengthBetween_iff] at username
  obtain ⟨⟨⟨⟨length, -⟩, -⟩, characters⟩, free⟩ := username
  refine ⟨fun slash => (nomatch characters _ slash), ?_, free⟩
  rintro rfl
  exact absurd length.1 (by decide)

theorem slug_plain {slug : String} (named : validateSlug slug = true) :
    '/' ∉ slug.toList ∧ slug ≠ "" := by
  simp only [validateSlug, Bool.and_eq_true, List.all_eq_true, lengthBetween_iff] at named
  obtain ⟨⟨⟨⟨⟨length, -⟩, -⟩, characters⟩, -⟩, -⟩ := named
  refine ⟨fun slash => (nomatch characters _ slash), ?_⟩
  rintro rfl
  exact absurd length.1 (by decide)

section Names

variable {name slug : String} (username : validateUsername name = true)
  (named : validateSlug slug = true)

include username in
/-- The page of an account or an organization is hidden by a page of the instance, or by nothing. -/
theorem profile_iff : dispatchGet ("/" ++ name) = .handled .publicProfile [name] ↔
    name ∉ fixedNames := by
  obtain ⟨plain, some, free⟩ := username_plain username
  constructor
  · intro served fixed
    have hidden : ∀ name ∈ fixedNames,
        dispatchGet ("/" ++ name) ≠ .handled .publicProfile [name] := by decide
    exact hidden name fixed served
  · intro other
    have apart : name ∉ heads [] router := by
      intro head
      rcases heads_profile name head with empty | reserved | fixed
      · exact some empty
      · exact free reserved
      · exact other fixed
    have found : find [name] router = _ :=
      find_param some (find_static_none .nil apart) ownerRoutes_profile
    rw [dispatchGet, segments_last plain, found]
    rfl

include username named in
/-- Behind an owner and a name, the routes of a repository decide. -/
theorem find_repository {rest : List String} {methods : MethodRouter}
    (owner : find (slug :: rest) (advance (fun segment => segment == .static name) router) = none)
    (found : find rest (advance Segment.isParam ownerRoutes) = some (methods, [])) :
    find (name :: slug :: rest) router = some (methods, [name, slug]) := by
  have inner : slug ∉ heads (rest.map Option.some) ownerRoutes := by
    rw [ownerRoutes_static]
    exact List.not_mem_nil
  exact find_param (username_plain username).2.1 owner
    (find_param (slug_plain named).2 (find_static_none (agree_some rest) inner) found)

include username named in
/-- Every page below a repository is where its name says. -/
theorem pages_served : ∀ page ∈ pages,
    dispatchGet ("/" ++ name ++ "/" ++ slug ++ "/" ++ page.1) = .handled page.2 [name, slug] := by
  intro page member
  obtain ⟨plain, -, free⟩ := username_plain username
  have path : segments ("/" ++ name ++ "/" ++ slug ++ "/" ++ page.1) =
      name :: slug :: segments ("/" ++ page.1) := by
    have text : "/" ++ name ++ "/" ++ slug ++ "/" ++ page.1 =
        "/" ++ name ++ "/" ++ (slug ++ "/" ++ page.1) := by
      simp only [String.append_assoc]
    have text' : "/" ++ (slug ++ "/" ++ page.1) = "/" ++ slug ++ "/" ++ page.1 := by
      simp only [String.append_assoc]
    rw [text, segments_cons plain, text', segments_cons (slug_plain named).1]
  have apart : name ∉ heads (none :: (segments ("/" ++ page.1)).map some) router :=
    fun head => free (heads_pages page member name head)
  have agree := List.Forall₂.cons (R := fun o s => Option.all (· == s) o = true) (a := none)
    (b := slug) rfl (agree_some (segments ("/" ++ page.1)))
  have owner := find_static_none agree apart
  obtain ⟨⟨methods, params⟩, found, handler⟩ := Option.bind_eq_some_iff.mp (below_pages page member)
  split at handler
  · rename_i empty
    subst empty
    have handler' : methods.get = some page.2 := handler
    rw [dispatchGet, path, find_repository username named owner found]
    simp only [handler']
  · cases handler

include username in
/-- No page of the instance matches the address of a repository, up to the known pairs. -/
theorem summary_apart (other : (name, slug) ∉ fixedPairs) :
    find [slug] (advance (fun segment => segment == .static name) router) = none := by
  cases found : find [slug] (advance (fun segment => segment == .static name) router) with
  | none => rfl
  | some result =>
      obtain ⟨pattern, member, matches'⟩ := find_sound found
      obtain ⟨segment, member', passed⟩ := mem_advance.mp member
      rw [beq_iff_eq] at passed
      subst passed
      have could : couldMatch _ [none] = true := couldMatch_of_matches matches' (.cons rfl .nil)
      obtain ⟨pair, same, hidden⟩ := (Option.any_eq_true _ _).mp
        (heads_summary _ member' _ rfl rfl could)
      cases matches' with
      | static later =>
          cases later
          cases same
          rcases of_decide_eq_true hidden with reserved | fixed
          · exact absurd reserved (username_plain username).2.2
          · exact absurd fixed other
      | param | rest => cases same

include username named in
/-- The address of a repository is hidden by a page of the instance, or by nothing. -/
theorem summary_iff : dispatchGet ("/" ++ name ++ "/" ++ slug) = .handled .summary [name, slug] ↔
    (name, slug) ∉ fixedPairs := by
  obtain ⟨plain, -, free⟩ := username_plain username
  constructor
  · intro served fixed
    have hidden : ∀ pair ∈ fixedPairs,
        dispatchGet ("/" ++ pair.1 ++ "/" ++ pair.2) ≠ .handled .summary [pair.1, pair.2] := by
      decide
    exact hidden (name, slug) fixed served
  · intro other
    have owner := summary_apart username other
    have found : find [] (advance Segment.isParam ownerRoutes) = some (get .summary, []) := by decide
    rw [dispatchGet, segments_cons plain, segments_last (slug_plain named).1,
      find_repository username named owner found]
    rfl

end Names

/-- **Which names are served**: all that are not the first segment of a page of the instance. -/
theorem served_iff (name slug : String) (username : validateUsername name = true)
    (named : validateSlug slug = true) : Served name slug ↔ name ∉ fixedNames := by
  constructor
  · rintro ⟨profile, -⟩
    exact (profile_iff username).mp profile
  · intro other
    have apart : (name, slug) ∉ fixedPairs := by
      have names : ∀ pair ∈ fixedPairs, pair.1 ∈ fixedNames := by decide
      exact fun fixed => other (names _ fixed)
    exact ⟨(profile_iff username).mpr other, (summary_iff username named).mpr apart,
      pages_served username named⟩

theorem alice_served : Served "alice" "tit" :=
  (served_iff "alice" "tit" (by decide) (by decide)).mpr (by decide)

/-- An account can be called `login`; its page is the page to log in. -/
theorem login_hidden :
    validateUsername "login" = true ∧ validateSlug "tit" = true ∧ ¬Served "login" "tit" := by
  decide

end Tit.Http
