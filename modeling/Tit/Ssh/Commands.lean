/-
# Ssh.Commands -- the lines that are commands

A client names a command of the server in one line.  Its words are what lies between the blanks; the
four parsers walk over them once, with options at the end in any order and each at most once.  The
grammar of each family is stated apart from its parser, as the word lists that spell a command
(`IssueCommand.Spelled` and its siblings), and a parser accepts a line exactly when the line is
plain and its words spell the command that it answers.

Whether an answer is for a machine is decided twice: by the parsed command, and by `requests_json`
when there is none.  The two agree on every line that is accepted, but for one spelling.
-/
import Tit.PullRequests.Review

namespace Tit.Ssh

open Tit.Theory Tit.Theory.Text Tit.Store Tit.Git Tit.PullRequests

set_option autoImplicit false

/-! ## Words -/

/-- `u8::is_ascii_whitespace`. -/
def isAsciiWhitespace (b : UInt8) : Bool := decide (b = 9 ∨ b = 10 ∨ b = 12 ∨ b = 13 ∨ b = 32)

/-- `str::split_ascii_whitespace`. -/
def splitAsciiWhitespace (line : Bytes) : List Bytes :=
  (line.splitOnP isAsciiWhitespace).filter fun word => decide (word ≠ [])

def isAsciiControl (b : UInt8) : Bool := decide (b < 32 ∨ b = 127)

/-- The checks on a line that the parsers share. -/
def plainLine (limit : Nat) (line : Bytes) : Bool :=
  decide (line.length ≤ limit) && line.all fun b => decide (b < 128) && !isAsciiControl b

inductive CommandOutput where
  | human
  | json
  deriving DecidableEq, Repr

def outputOption : Bytes := asciiBytes "--output"

def stateOption : Bytes := asciiBytes "--state"

def parseOutput (value : Bytes) : Option CommandOutput :=
  if value = asciiBytes "human" then some .human
  else if value = asciiBytes "json" then some .json
  else none

/-- The loop of `parse_output_options`, with the output that was read so far. -/
def parseOutputOptions : Option CommandOutput → List Bytes → Option CommandOutput
  | output, [] => some (output.getD .human)
  | _, [_] => none
  | output, option :: value :: rest =>
      if option ≠ outputOption ∨ output.isSome then none
      else
        match parseOutput value with
        | some read => parseOutputOptions (some read) rest
        | none => none

/-- `owner/repository`, with one slash. -/
def parseTarget (target : Bytes) : Option (Bytes × Bytes) :=
  (splitOnce 47 target).filter fun (owner, repository) =>
    decide (owner ≠ [] ∧ repository ≠ [] ∧ (47 : UInt8) ∉ repository)

/-- `parse::<i64>`, from one on. -/
def parseNumber (word : Bytes) : Option Int := (parseI64 word).filter fun n => decide (1 ≤ n)

/-! ## The parsers -/

inductive OrganizationCommand where
  | create (slug displayName : Bytes) (output : CommandOutput)
  | setMember (organization username role : Bytes) (output : CommandOutput)
  | removeMember (organization username : Bytes) (output : CommandOutput)
  deriving DecidableEq, Repr

structure RepositoryCreateCommand where
  slug : Bytes
  output : CommandOutput
  deriving DecidableEq, Repr

inductive IssueCommand where
  | list (owner repository : Bytes) (output : CommandOutput)
  | create (owner repository : Bytes) (output : CommandOutput)
  | comment (owner repository : Bytes) (number : Int) (output : CommandOutput)
  | setState (owner repository : Bytes) (number : Int) (closed : Bool) (output : CommandOutput)
  deriving DecidableEq, Repr

inductive PullRequestCommand where
  | list (owner repository state : Bytes) (output : CommandOutput)
  | create (owner repository base head : Bytes) (output : CommandOutput)
  | checkout (owner repository : Bytes) (number : Int) (output : CommandOutput)
  | setState (owner repository : Bytes) (number : Int) (closed : Bool) (output : CommandOutput)
  deriving DecidableEq, Repr

/-- The words before the first `--output`, which only its value follows. -/
def parseTrailingOutput (words : List Bytes) : Option (List Bytes × CommandOutput) :=
  match words.span fun word => decide (word ≠ outputOption) with
  | (before, []) => some (before, .human)
  | (before, [_, value]) => (parseOutput value).map fun output => (before, output)
  | _ => none

def roles : List Bytes := ["owner", "maintainer", "writer", "reader"].map asciiBytes

/-- `join(" ")`. -/
def joinWords : List Bytes → Bytes
  | [] => []
  | [word] => word
  | word :: rest => word ++ 32 :: joinWords rest

def parseOrganizationWords (words : List Bytes) (output : CommandOutput) :
    Option OrganizationCommand :=
  match words with
  | org :: create :: rest =>
      if org ≠ asciiBytes "org" then none
      else if create = asciiBytes "create" then
        rest.head?.bind fun slug =>
          if rest.tail = [] then none else some (.create slug (joinWords rest.tail) output)
      else if create = asciiBytes "member" then
        match rest with
        | [action, organization, username, role] =>
            if action = asciiBytes "set" ∧ roles.contains role then
              some (.setMember organization username role output)
            else none
        | [action, organization, username] =>
            if action = asciiBytes "remove" then some (.removeMember organization username output)
            else none
        | _ => none
      else none
  | [_] => none
  | [] => none

def parseOrganizationCommand (line : Bytes) : Option OrganizationCommand :=
  if plainLine 1024 line then
    (parseTrailingOutput (splitAsciiWhitespace line)).bind fun (words, output) =>
      parseOrganizationWords words output
  else none

def parseRepositoryWords (words : List Bytes) : Option RepositoryCreateCommand :=
  match words with
  | repo :: create :: slug :: options =>
      if repo = asciiBytes "repo" ∧ create = asciiBytes "create" then
        (parseOutputOptions none options).map fun output => { slug, output }
      else none
  | _ => none

def parseRepositoryCommand (line : Bytes) : Option RepositoryCreateCommand :=
  if plainLine 512 line then parseRepositoryWords (splitAsciiWhitespace line) else none

/-- An operation on a numbered issue or pull request, and the words after the number. -/
def parseNumbered (words : List Bytes) : Option (Int × CommandOutput) :=
  match words with
  | number :: options => do
      let number ← parseNumber number
      let output ← parseOutputOptions none options
      pure (number, output)
  | [] => none

def parseIssueWords (words : List Bytes) : Option IssueCommand :=
  match words with
  | issue :: operation :: target :: rest =>
      if issue ≠ asciiBytes "issue" then none
      else do
        let (owner, repository) ← parseTarget target
        if operation = asciiBytes "list" then
          (parseOutputOptions none rest).map (.list owner repository)
        else if operation = asciiBytes "create" then
          (parseOutputOptions none rest).map (.create owner repository)
        else if operation = asciiBytes "comment" then
          (parseNumbered rest).map fun (number, output) => .comment owner repository number output
        else if operation = asciiBytes "close" then
          (parseNumbered rest).map fun (number, output) =>
            .setState owner repository number true output
        else if operation = asciiBytes "reopen" then
          (parseNumbered rest).map fun (number, output) =>
            .setState owner repository number false output
        else none
  | _ => none

def parseIssueCommand (line : Bytes) : Option IssueCommand :=
  if plainLine 512 line then parseIssueWords (splitAsciiWhitespace line) else none

def listStates : List Bytes := ["open", "closed", "merged", "all"].map asciiBytes

/-- The loop of `parse_pull_request_list_options`. -/
def parseListOptions :
    Option Bytes → Option CommandOutput → List Bytes → Option (Bytes × CommandOutput)
  | state, output, [] => some (state.getD (asciiBytes "open"), output.getD .human)
  | _, _, [_] => none
  | state, output, option :: value :: rest =>
      if option = stateOption ∧ state.isNone then
        if listStates.contains value then parseListOptions (some value) output rest else none
      else if option = outputOption ∧ output.isNone then
        (parseOutput value).bind fun read => parseListOptions state (some read) rest
      else none

def parsePullRequestWords (words : List Bytes) : Option PullRequestCommand :=
  match words with
  | pr :: operation :: target :: rest =>
      if pr ≠ asciiBytes "pr" then none
      else do
        let (owner, repository) ← parseTarget target
        if operation = asciiBytes "list" then
          (parseListOptions none none rest).map fun (state, output) =>
            .list owner repository state output
        else if operation = asciiBytes "create" then
          match rest with
          | base :: head :: options =>
              (parseOutputOptions none options).map (.create owner repository base head)
          | _ => none
        else if operation = asciiBytes "checkout" then
          (parseNumbered rest).map fun (number, output) => .checkout owner repository number output
        else if operation = asciiBytes "close" then
          (parseNumbered rest).map fun (number, output) =>
            .setState owner repository number true output
        else if operation = asciiBytes "reopen" then
          (parseNumbered rest).map fun (number, output) =>
            .setState owner repository number false output
        else none
  | _ => none

def parsePullRequestCommand (line : Bytes) : Option PullRequestCommand :=
  if plainLine 512 line then parsePullRequestWords (splitAsciiWhitespace line) else none

/-- `requests_json`: two words beside each other. -/
def requestsJson : List Bytes → Bool
  | option :: value :: rest =>
      decide (option = outputOption ∧ value = asciiBytes "json") || requestsJson (value :: rest)
  | _ => false

/-! ## The grammar -/

/-- The words that ask for an output. -/
inductive OutputWords : CommandOutput → List Bytes → Prop where
  | silent : OutputWords .human []
  | human : OutputWords .human [outputOption, asciiBytes "human"]
  | json : OutputWords .json [outputOption, asciiBytes "json"]

/-- The words that ask for a state. -/
inductive StateWords : Bytes → List Bytes → Prop where
  | silent : StateWords (asciiBytes "open") []
  | asked {state : Bytes} (listed : state ∈ listStates) : StateWords state [stateOption, state]

/-- Two names with the slash between them. -/
def TargetWord (owner repository word : Bytes) : Prop :=
  word = owner ++ 47 :: repository ∧ (47 : UInt8) ∉ owner ∧
    owner ≠ [] ∧ repository ≠ [] ∧ (47 : UInt8) ∉ repository

def NumberWord (number : Int) (word : Bytes) : Prop := parseI64 word = some number ∧ 1 ≤ number

theorem parseOutput_eq_some {value : Bytes} {output : CommandOutput} :
    parseOutput value = some output ↔ OutputWords output [outputOption, value] := by
  unfold parseOutput
  constructor
  · intro read
    split at read
    · rename_i same
      cases read
      rw [same]
      exact .human
    · split at read
      · rename_i same
        cases read
        rw [same]
        exact .json
      · cases read
  · intro spelled
    cases spelled with
    | human => exact if_pos rfl
    | json => exact (if_neg (by decide)).trans (if_pos rfl)

/-- **The options are read once each.** -/
theorem parseOutputOptions_eq_some {words : List Bytes} {output : CommandOutput} :
    parseOutputOptions none words = some output ↔ OutputWords output words := by
  constructor
  · intro read
    match words with
    | [] =>
        cases read
        exact .silent
    | [_] => cases read
    | option :: value :: rest =>
        rw [parseOutputOptions] at read
        split at read
        · cases read
        · rename_i first
          rw [not_or, not_not] at first
          split at read
          · rename_i found parsed
            -- a second option is refused
            have last : rest = [] ∧ found = output := by
              match rest with
              | [] => exact ⟨rfl, Option.some.inj read⟩
              | [_] => cases read
              | _ :: _ :: _ =>
                  rw [parseOutputOptions, if_pos (Or.inr Option.isSome_some)] at read
                  cases read
            rw [last.1, first.1, ← last.2]
            exact parseOutput_eq_some.mp parsed
          · cases read
  · intro spelled
    cases spelled with
    | silent => rfl
    | human => decide
    | json => decide

theorem span_ne {b : UInt8} {before after : Bytes} (clean : b ∉ before) :
    (before ++ b :: after).span (fun c => decide (c ≠ b)) = (before, b :: after) := by
  rw [List.span_eq_takeWhile_dropWhile, List.takeWhile_append_of_pos, List.dropWhile_append_of_pos]
  · simp
  · exact fun c member => decide_eq_true fun same => clean (same ▸ member)
  · exact fun c member => decide_eq_true fun same => clean (same ▸ member)

theorem splitOnce_eq_some {b : UInt8} {word before after : Bytes} :
    splitOnce b word = some (before, after) ↔ b ∉ before ∧ word = before ++ b :: after := by
  constructor
  · intro found
    unfold splitOnce at found
    rw [List.span_eq_takeWhile_dropWhile] at found
    split at found
    · rename_i before' c after' split
      cases found
      obtain ⟨first, second⟩ := Prod.mk.inj split
      have stop : c = b := by
        have head := List.head?_dropWhile_not (fun c => decide (c ≠ b)) word
        rw [second] at head
        simpa using head
      refine ⟨fun member => ?_, ?_⟩
      · rw [← first] at member
        have other := List.mem_takeWhile_imp (p := fun c => decide (c ≠ b)) member
        exact absurd rfl (of_decide_eq_true other)
      · subst stop
        rw [← first, ← second, List.takeWhile_append_dropWhile]
    · cases found
  · rintro ⟨clean, rfl⟩
    unfold splitOnce
    rw [span_ne clean]

theorem parseTarget_eq_some {word owner repository : Bytes} :
    parseTarget word = some (owner, repository) ↔ TargetWord owner repository word := by
  unfold parseTarget
  rw [Option.filter_eq_some_iff, splitOnce_eq_some, decide_eq_true_iff]
  exact ⟨fun ⟨⟨clean, same⟩, names⟩ => ⟨same, clean, names⟩,
    fun ⟨same, clean, names⟩ => ⟨⟨clean, same⟩, names⟩⟩

theorem parseNumber_eq_some {word : Bytes} {number : Int} :
    parseNumber word = some number ↔ NumberWord number word := by
  unfold parseNumber
  rw [Option.filter_eq_some_iff, decide_eq_true_iff]
  exact Iff.rfl

theorem parseNumbered_eq_some {words : List Bytes} {number : Int} {output : CommandOutput} :
    parseNumbered words = some (number, output) ↔
      ∃ word options, words = word :: options ∧ NumberWord number word ∧
        OutputWords output options := by
  cases words with
  | nil => exact ⟨nofun, fun ⟨_, _, no, _⟩ => nomatch no⟩
  | cons word options =>
      simp only [parseNumbered, Option.bind_eq_bind, Option.bind_eq_some_iff, Option.pure_def,
        Option.some.injEq, Prod.mk.injEq, List.cons.injEq]
      constructor
      · rintro ⟨n, read, o, options', rfl, rfl⟩
        exact ⟨word, options, ⟨rfl, rfl⟩, parseNumber_eq_some.mp read,
          parseOutputOptions_eq_some.mp options'⟩
      · rintro ⟨_, _, ⟨rfl, rfl⟩, read, options'⟩
        exact ⟨number, parseNumber_eq_some.mpr read, output,
          parseOutputOptions_eq_some.mpr options', rfl, rfl⟩

/-! ## What the parsers accept -/

/-- The family, the operation and the repository of a command, and the words after them. -/
def Heads (family operation : String) (owner repository : Bytes) (words rest : List Bytes) : Prop :=
  ∃ target, words = asciiBytes family :: asciiBytes operation :: target :: rest ∧
    TargetWord owner repository target

def NumberedWords (number : Int) (output : CommandOutput) (words : List Bytes) : Prop :=
  ∃ word options, words = word :: options ∧ NumberWord number word ∧ OutputWords output options

/-- The word lists that spell a command on issues. -/
def IssueCommand.Spelled (command : IssueCommand) (words : List Bytes) : Prop :=
  ∃ rest, match command with
    | .list owner repository output =>
        Heads "issue" "list" owner repository words rest ∧ OutputWords output rest
    | .create owner repository output =>
        Heads "issue" "create" owner repository words rest ∧ OutputWords output rest
    | .comment owner repository number output =>
        Heads "issue" "comment" owner repository words rest ∧ NumberedWords number output rest
    | .setState owner repository number closed output =>
        Heads "issue" (if closed then "close" else "reopen") owner repository words rest ∧
          NumberedWords number output rest

theorem parseIssueWords_eq_some {words : List Bytes} {command : IssueCommand} :
    parseIssueWords words = some command ↔ command.Spelled words := by
  constructor
  · intro read
    unfold parseIssueWords at read
    split at read
    · rename_i issue operation target rest
      split at read
      · cases read
      · rename_i family
        rw [not_not] at family
        rw [Option.bind_eq_bind, Option.bind_eq_some_iff] at read
        obtain ⟨⟨owner, repository⟩, there, read⟩ := read
        have named := parseTarget_eq_some.mp there
        simp only at read
        refine ⟨rest, ?_⟩
        split at read
        · rename_i list
          obtain ⟨output, options, rfl⟩ := Option.map_eq_some_iff.mp read
          exact ⟨⟨target, by rw [family, list], named⟩, parseOutputOptions_eq_some.mp options⟩
        · split at read
          · rename_i create
            obtain ⟨output, options, rfl⟩ := Option.map_eq_some_iff.mp read
            exact ⟨⟨target, by rw [family, create], named⟩, parseOutputOptions_eq_some.mp options⟩
          · split at read
            · rename_i comment
              obtain ⟨⟨number, output⟩, numbered, rfl⟩ := Option.map_eq_some_iff.mp read
              exact ⟨⟨target, by rw [family, comment], named⟩, parseNumbered_eq_some.mp numbered⟩
            · split at read
              · rename_i close
                obtain ⟨⟨number, output⟩, numbered, rfl⟩ := Option.map_eq_some_iff.mp read
                exact ⟨⟨target, by rw [family, close]; rfl, named⟩,
                  parseNumbered_eq_some.mp numbered⟩
              · split at read
                · rename_i reopen
                  obtain ⟨⟨number, output⟩, numbered, rfl⟩ := Option.map_eq_some_iff.mp read
                  exact ⟨⟨target, by rw [family, reopen]; rfl, named⟩,
                    parseNumbered_eq_some.mp numbered⟩
                · cases read
    · cases read
  · rintro ⟨rest, spelled⟩
    cases command with
    | list owner repository output =>
        obtain ⟨⟨target, rfl, named⟩, options⟩ := spelled
        simp +decide [parseIssueWords, parseTarget_eq_some.mpr named,
          parseOutputOptions_eq_some.mpr options]
    | create owner repository output =>
        obtain ⟨⟨target, rfl, named⟩, options⟩ := spelled
        simp +decide [parseIssueWords, parseTarget_eq_some.mpr named,
          parseOutputOptions_eq_some.mpr options]
    | comment owner repository number output =>
        obtain ⟨⟨target, rfl, named⟩, numbered⟩ := spelled
        simp +decide [parseIssueWords, parseTarget_eq_some.mpr named,
          parseNumbered_eq_some.mpr numbered]
    | setState owner repository number closed output =>
        obtain ⟨⟨target, rfl, named⟩, numbered⟩ := spelled
        cases closed <;>
          simp +decide [parseIssueWords, parseTarget_eq_some.mpr named,
            parseNumbered_eq_some.mpr numbered]

/-- The options of a list, in either order. -/
def ListWords (state : Bytes) (output : CommandOutput) (words : List Bytes) : Prop :=
  ∃ states outputs, StateWords state states ∧ OutputWords output outputs ∧
    (words = states ++ outputs ∨ words = outputs ++ states)

theorem parseListOptions_full {words : List Bytes} {state : Bytes} {output : CommandOutput}
    {read : Bytes × CommandOutput} :
    parseListOptions (some state) (some output) words = some read ↔
      words = [] ∧ read = (state, output) := by
  match words with
  | [] => exact ⟨fun same => ⟨rfl, (Option.some.inj same).symm⟩, fun ⟨_, same⟩ => same ▸ rfl⟩
  | [_] => exact ⟨nofun, fun ⟨no, _⟩ => nomatch no⟩
  | option :: value :: rest =>
      rw [parseListOptions, if_neg (fun ⟨_, no⟩ => nomatch no), if_neg (fun ⟨_, no⟩ => nomatch no)]
      exact ⟨nofun, fun ⟨no, _⟩ => nomatch no⟩

theorem parseListOptions_stated {words : List Bytes} {state state' : Bytes}
    {output : CommandOutput} :
    parseListOptions (some state) none words = some (state', output) ↔
      state' = state ∧ OutputWords output words := by
  constructor
  · intro read
    match words with
    | [] =>
        cases read
        exact ⟨rfl, .silent⟩
    | [_] => cases read
    | option :: value :: rest =>
        rw [parseListOptions, if_neg (fun ⟨_, no⟩ => nomatch no)] at read
        split at read
        · rename_i asked
          obtain ⟨found, parsed, read⟩ := Option.bind_eq_some_iff.mp read
          obtain ⟨rfl, same⟩ := parseListOptions_full.mp read
          obtain ⟨rfl, rfl⟩ := Prod.mk.inj same
          rw [asked.1]
          exact ⟨rfl, parseOutput_eq_some.mp parsed⟩
        · cases read
  · rintro ⟨rfl, spelled⟩
    cases spelled with
    | silent => rfl
    | human =>
        rw [parseListOptions, if_neg (fun ⟨no, _⟩ => absurd no (by decide)), if_pos ⟨rfl, rfl⟩]
        rfl
    | json =>
        rw [parseListOptions, if_neg (fun ⟨no, _⟩ => absurd no (by decide)), if_pos ⟨rfl, rfl⟩]
        rfl

theorem parseListOptions_asked {words : List Bytes} {state : Bytes}
    {output output' : CommandOutput} :
    parseListOptions none (some output) words = some (state, output') ↔
      output' = output ∧ StateWords state words := by
  constructor
  · intro read
    match words with
    | [] =>
        cases read
        exact ⟨rfl, .silent⟩
    | [_] => cases read
    | option :: value :: rest =>
        rw [parseListOptions] at read
        split at read
        · rename_i stated
          split at read
          · rename_i listed
            obtain ⟨rfl, same⟩ := parseListOptions_full.mp read
            obtain ⟨rfl, rfl⟩ := Prod.mk.inj same
            rw [stated.1]
            exact ⟨rfl, .asked (List.contains_iff_mem.mp listed)⟩
          · cases read
        · rw [if_neg (fun ⟨_, no⟩ => nomatch no)] at read
          cases read
  · rintro ⟨rfl, spelled⟩
    cases spelled with
    | silent => rfl
    | asked listed =>
        rw [parseListOptions, if_pos ⟨rfl, rfl⟩, if_pos (List.contains_iff_mem.mpr listed)]
        rfl

theorem parseListOptions_eq_some {words : List Bytes} {state : Bytes} {output : CommandOutput} :
    parseListOptions none none words = some (state, output) ↔ ListWords state output words := by
  constructor
  · intro read
    match words with
    | [] =>
        cases read
        exact ⟨[], [], .silent, .silent, Or.inl rfl⟩
    | [_] => cases read
    | option :: value :: rest =>
        rw [parseListOptions] at read
        split at read
        · rename_i stated
          split at read
          · rename_i listed
            obtain ⟨rfl, later⟩ := parseListOptions_stated.mp read
            rw [stated.1]
            exact ⟨[stateOption, state], rest, .asked (List.contains_iff_mem.mp listed), later,
              Or.inl rfl⟩
          · cases read
        · split at read
          · rename_i asked
            obtain ⟨found, parsed, read⟩ := Option.bind_eq_some_iff.mp read
            obtain ⟨rfl, later⟩ := parseListOptions_asked.mp read
            rw [asked.1]
            exact ⟨rest, [outputOption, value], later, parseOutput_eq_some.mp parsed, Or.inr rfl⟩
          · cases read
  · rintro ⟨states, outputs, stated, asked, order⟩
    cases stated with
    | silent =>
        rw [List.nil_append, List.append_nil, or_self] at order
        subst order
        cases asked with
        | silent => rfl
        | human => decide
        | json => decide
    | asked listed =>
        rcases order with rfl | rfl
        · rw [List.cons_append, List.cons_append, List.nil_append, parseListOptions,
            if_pos ⟨rfl, rfl⟩, if_pos (List.contains_iff_mem.mpr listed)]
          exact parseListOptions_stated.mpr ⟨rfl, asked⟩
        · have later : parseListOptions none (some output) [stateOption, state] =
              some (state, output) := parseListOptions_asked.mpr ⟨rfl, .asked listed⟩
          cases asked with
          | silent =>
              rw [List.nil_append, parseListOptions, if_pos ⟨rfl, rfl⟩,
                if_pos (List.contains_iff_mem.mpr listed)]
              rfl
          | human =>
              rw [List.cons_append, List.cons_append, List.nil_append, parseListOptions,
                if_neg (fun ⟨no, _⟩ => absurd no (by decide)), if_pos ⟨rfl, rfl⟩]
              exact later
          | json =>
              rw [List.cons_append, List.cons_append, List.nil_append, parseListOptions,
                if_neg (fun ⟨no, _⟩ => absurd no (by decide)), if_pos ⟨rfl, rfl⟩]
              exact later

/-- The word lists that spell a command on pull requests. -/
def PullRequestCommand.Spelled (command : PullRequestCommand) (words : List Bytes) : Prop :=
  ∃ rest, match command with
    | .list owner repository state output =>
        Heads "pr" "list" owner repository words rest ∧ ListWords state output rest
    | .create owner repository base head output =>
        Heads "pr" "create" owner repository words rest ∧
          ∃ options, rest = base :: head :: options ∧ OutputWords output options
    | .checkout owner repository number output =>
        Heads "pr" "checkout" owner repository words rest ∧ NumberedWords number output rest
    | .setState owner repository number closed output =>
        Heads "pr" (if closed then "close" else "reopen") owner repository words rest ∧
          NumberedWords number output rest

theorem parsePullRequestWords_eq_some {words : List Bytes} {command : PullRequestCommand} :
    parsePullRequestWords words = some command ↔ command.Spelled words := by
  constructor
  · intro read
    unfold parsePullRequestWords at read
    split at read
    · rename_i pr operation target rest
      split at read
      · cases read
      · rename_i family
        rw [not_not] at family
        rw [Option.bind_eq_bind, Option.bind_eq_some_iff] at read
        obtain ⟨⟨owner, repository⟩, there, read⟩ := read
        have named := parseTarget_eq_some.mp there
        simp only at read
        refine ⟨rest, ?_⟩
        split at read
        · rename_i list
          obtain ⟨⟨state, output⟩, options, rfl⟩ := Option.map_eq_some_iff.mp read
          exact ⟨⟨target, by rw [family, list], named⟩, parseListOptions_eq_some.mp options⟩
        · split at read
          · rename_i create
            split at read
            · rename_i base head options
              obtain ⟨output, asked, rfl⟩ := Option.map_eq_some_iff.mp read
              exact ⟨⟨target, by rw [family, create], named⟩, options, rfl,
                parseOutputOptions_eq_some.mp asked⟩
            · cases read
          · split at read
            · rename_i checkout
              obtain ⟨⟨number, output⟩, numbered, rfl⟩ := Option.map_eq_some_iff.mp read
              exact ⟨⟨target, by rw [family, checkout], named⟩, parseNumbered_eq_some.mp numbered⟩
            · split at read
              · rename_i close
                obtain ⟨⟨number, output⟩, numbered, rfl⟩ := Option.map_eq_some_iff.mp read
                exact ⟨⟨target, by rw [family, close]; rfl, named⟩,
                  parseNumbered_eq_some.mp numbered⟩
              · split at read
                · rename_i reopen
                  obtain ⟨⟨number, output⟩, numbered, rfl⟩ := Option.map_eq_some_iff.mp read
                  exact ⟨⟨target, by rw [family, reopen]; rfl, named⟩,
                    parseNumbered_eq_some.mp numbered⟩
                · cases read
    · cases read
  · rintro ⟨rest, spelled⟩
    cases command with
    | list owner repository state output =>
        obtain ⟨⟨target, rfl, named⟩, options⟩ := spelled
        simp +decide [parsePullRequestWords, parseTarget_eq_some.mpr named,
          parseListOptions_eq_some.mpr options]
    | create owner repository base head output =>
        obtain ⟨⟨target, rfl, named⟩, options, rfl, asked⟩ := spelled
        simp +decide [parsePullRequestWords, parseTarget_eq_some.mpr named,
          parseOutputOptions_eq_some.mpr asked]
    | checkout owner repository number output =>
        obtain ⟨⟨target, rfl, named⟩, numbered⟩ := spelled
        simp +decide [parsePullRequestWords, parseTarget_eq_some.mpr named,
          parseNumbered_eq_some.mpr numbered]
    | setState owner repository number closed output =>
        obtain ⟨⟨target, rfl, named⟩, numbered⟩ := spelled
        cases closed <;>
          simp +decide [parsePullRequestWords, parseTarget_eq_some.mpr named,
            parseNumbered_eq_some.mpr numbered]

def RepositoryCreateCommand.Spelled (command : RepositoryCreateCommand) (words : List Bytes) :
    Prop :=
  ∃ options, words = asciiBytes "repo" :: asciiBytes "create" :: command.slug :: options ∧
    OutputWords command.output options

theorem parseRepositoryWords_eq_some {words : List Bytes} {command : RepositoryCreateCommand} :
    parseRepositoryWords words = some command ↔ command.Spelled words := by
  constructor
  · intro read
    unfold parseRepositoryWords at read
    split at read
    · rename_i repo create slug options
      split at read
      · rename_i named
        obtain ⟨output, asked, rfl⟩ := Option.map_eq_some_iff.mp read
        exact ⟨options, by rw [named.1, named.2], parseOutputOptions_eq_some.mp asked⟩
      · cases read
    · cases read
  · rintro ⟨options, rfl, asked⟩
    rw [parseRepositoryWords, if_pos ⟨rfl, rfl⟩, parseOutputOptions_eq_some.mpr asked]
    rfl

/-- The word lists that spell a command on organizations; the display name has no option in it. -/
def OrganizationCommand.Spelled (command : OrganizationCommand) (words : List Bytes) : Prop :=
  ∃ before options, words = before ++ options ∧ outputOption ∉ before ∧
    match command with
    | .create slug displayName output =>
        OutputWords output options ∧ ∃ names, names ≠ [] ∧ displayName = joinWords names ∧
          before = asciiBytes "org" :: asciiBytes "create" :: slug :: names
    | .setMember organization username role output =>
        OutputWords output options ∧ role ∈ roles ∧
          before = [asciiBytes "org", asciiBytes "member", asciiBytes "set", organization, username,
            role]
    | .removeMember organization username output =>
        OutputWords output options ∧
          before = [asciiBytes "org", asciiBytes "member", asciiBytes "remove", organization,
            username]

theorem parseTrailingOutput_eq_some {words before : List Bytes} {output : CommandOutput} :
    parseTrailingOutput words = some (before, output) ↔
      ∃ options, words = before ++ options ∧ outputOption ∉ before ∧
        OutputWords output options := by
  constructor
  · intro read
    unfold parseTrailingOutput at read
    rw [List.span_eq_takeWhile_dropWhile] at read
    have clean : outputOption ∉ words.takeWhile fun word => decide (word ≠ outputOption) := by
      intro member
      have other := List.mem_takeWhile_imp (p := fun word => decide (word ≠ outputOption)) member
      exact absurd rfl (of_decide_eq_true other)
    have whole := List.takeWhile_append_dropWhile (p := fun word => decide (word ≠ outputOption))
      (l := words)
    split at read
    · rename_i before' split
      obtain ⟨first, second⟩ := Prod.mk.inj split
      cases read
      rw [second, List.append_nil] at whole
      exact ⟨[], by rw [List.append_nil, ← first, whole], first ▸ clean, .silent⟩
    · rename_i before' option value split
      obtain ⟨first, second⟩ := Prod.mk.inj split
      obtain ⟨output', asked, same⟩ := Option.map_eq_some_iff.mp read
      obtain ⟨rfl, rfl⟩ := Prod.mk.inj same
      have stop : option = outputOption := by
        have head := List.head?_dropWhile_not (fun word => decide (word ≠ outputOption)) words
        rw [second] at head
        simpa using head
      refine ⟨[option, value], by rw [← first, ← second, whole], first ▸ clean, ?_⟩
      rw [stop]
      exact parseOutput_eq_some.mp asked
    · cases read
  · rintro ⟨options, rfl, clean, asked⟩
    have before' : ∀ word ∈ before, decide (word ≠ outputOption) = true :=
      fun word member => decide_eq_true fun same => clean (same ▸ member)
    have stop : options.takeWhile (fun word => decide (word ≠ outputOption)) = [] ∧
        options.dropWhile (fun word => decide (word ≠ outputOption)) = options := by
      cases asked with
      | silent => exact ⟨rfl, rfl⟩
      | human => exact ⟨by decide, by decide⟩
      | json => exact ⟨by decide, by decide⟩
    unfold parseTrailingOutput
    rw [List.span_eq_takeWhile_dropWhile, List.takeWhile_append_of_pos before',
      List.dropWhile_append_of_pos before', stop.1, stop.2, List.append_nil]
    cases asked with
    | silent => rfl
    | human => rfl
    | json => rfl

theorem parseOrganizationWords_eq_some {before : List Bytes} {output : CommandOutput}
    {command : OrganizationCommand} :
    parseOrganizationWords before output = some command ↔
      match command with
      | .create slug displayName output' =>
          output' = output ∧ ∃ names, names ≠ [] ∧ displayName = joinWords names ∧
            before = asciiBytes "org" :: asciiBytes "create" :: slug :: names
      | .setMember organization username role output' =>
          output' = output ∧ role ∈ roles ∧
            before = [asciiBytes "org", asciiBytes "member", asciiBytes "set", organization,
              username, role]
      | .removeMember organization username output' =>
          output' = output ∧
            before = [asciiBytes "org", asciiBytes "member", asciiBytes "remove", organization,
              username] := by
  constructor
  · intro read
    unfold parseOrganizationWords at read
    split at read
    · rename_i org create rest
      split at read
      · cases read
      · rename_i family
        rw [not_not] at family
        split at read
        · rename_i creates
          obtain ⟨slug, first, read⟩ := Option.bind_eq_some_iff.mp read
          split at read
          · cases read
          · rename_i named
            cases read
            refine ⟨rfl, rest.tail, named, rfl, ?_⟩
            rw [family, creates, List.cons_head?_tail first]
        · split at read
          · rename_i member
            split at read
            · rename_i action organization username role
              split at read
              · rename_i sets
                cases read
                exact ⟨rfl, List.contains_iff_mem.mp sets.2, by rw [family, member, sets.1]⟩
              · cases read
            · rename_i action organization username
              split at read
              · rename_i removes
                cases read
                exact ⟨rfl, by rw [family, member, removes]⟩
              · cases read
            · cases read
          · cases read
    · cases read
    · cases read
  · intro spelled
    cases command with
    | create slug displayName output' =>
        obtain ⟨rfl, names, named, rfl, rfl⟩ := spelled
        simp [parseOrganizationWords, named]
    | setMember organization username role output' =>
        obtain ⟨rfl, listed, rfl⟩ := spelled
        simp +decide [parseOrganizationWords, listed]
    | removeMember organization username output' =>
        obtain ⟨rfl, rfl⟩ := spelled
        simp +decide [parseOrganizationWords]

theorem parseOrganization_eq_some {words : List Bytes} {command : OrganizationCommand} :
    ((parseTrailingOutput words).bind fun (words, output) =>
      parseOrganizationWords words output) = some command ↔ command.Spelled words := by
  rw [Option.bind_eq_some_iff]
  constructor
  · rintro ⟨⟨before, output⟩, trailing, read⟩
    obtain ⟨options, same, clean, asked⟩ := parseTrailingOutput_eq_some.mp trailing
    refine ⟨before, options, same, clean, ?_⟩
    have spelled := parseOrganizationWords_eq_some.mp read
    cases command with
    | create slug displayName output' =>
        obtain ⟨rfl, names⟩ := spelled
        exact ⟨asked, names⟩
    | setMember organization username role output' =>
        obtain ⟨rfl, names⟩ := spelled
        exact ⟨asked, names⟩
    | removeMember organization username output' =>
        obtain ⟨rfl, names⟩ := spelled
        exact ⟨asked, names⟩
  · rintro ⟨before, options, same, clean, spelled⟩
    cases command with
    | create slug displayName output =>
        obtain ⟨asked, names⟩ := spelled
        exact ⟨(before, output), parseTrailingOutput_eq_some.mpr ⟨options, same, clean, asked⟩,
          parseOrganizationWords_eq_some.mpr ⟨rfl, names⟩⟩
    | setMember organization username role output =>
        obtain ⟨asked, names⟩ := spelled
        exact ⟨(before, output), parseTrailingOutput_eq_some.mpr ⟨options, same, clean, asked⟩,
          parseOrganizationWords_eq_some.mpr ⟨rfl, names⟩⟩
    | removeMember organization username output =>
        obtain ⟨asked, names⟩ := spelled
        exact ⟨(before, output), parseTrailingOutput_eq_some.mpr ⟨options, same, clean, asked⟩,
          parseOrganizationWords_eq_some.mpr ⟨rfl, names⟩⟩

/-- What the parsers make of a line. -/
structure Reads (line : Bytes) : Prop where
  organization : ∀ c, parseOrganizationCommand line = some c ↔
    plainLine 1024 line = true ∧ c.Spelled (splitAsciiWhitespace line)
  repository : ∀ c, parseRepositoryCommand line = some c ↔
    plainLine 512 line = true ∧ c.Spelled (splitAsciiWhitespace line)
  issue : ∀ c, parseIssueCommand line = some c ↔
    plainLine 512 line = true ∧ c.Spelled (splitAsciiWhitespace line)
  pullRequest : ∀ c, parsePullRequestCommand line = some c ↔
    plainLine 512 line = true ∧ c.Spelled (splitAsciiWhitespace line)

/-- **The parsers accept the plain lines whose words spell a command, and read that command.** -/
theorem commands_read (line : Bytes) : Reads line := by
  refine ⟨fun c => ?_, fun c => ?_, fun c => ?_, fun c => ?_⟩
  · unfold parseOrganizationCommand
    rw [Option.ite_none_right_eq_some, parseOrganization_eq_some]
  · unfold parseRepositoryCommand
    rw [Option.ite_none_right_eq_some, parseRepositoryWords_eq_some]
  · unfold parseIssueCommand
    rw [Option.ite_none_right_eq_some, parseIssueWords_eq_some]
  · unfold parsePullRequestCommand
    rw [Option.ite_none_right_eq_some, parsePullRequestWords_eq_some]

/-! ## Answers for a machine -/

theorem requestsJson_append {before after : List Bytes}
    (apart : ∀ word ∈ after.head?, word ≠ asciiBytes "json") :
    requestsJson (before ++ after) = (requestsJson before || requestsJson after) := by
  induction before with
  | nil => rfl
  | cons word rest ih =>
      cases rest with
      | nil =>
          cases after with
          | nil => rfl
          | cons first after =>
              have other : ¬(word = outputOption ∧ first = asciiBytes "json") :=
                fun both => apart first rfl both.2
              rw [List.cons_append, List.nil_append, requestsJson, decide_eq_false other]
              rfl
      | cons next rest =>
          rw [List.cons_append, List.cons_append, requestsJson, ← List.cons_append, ih,
            requestsJson, Bool.or_assoc]

theorem requestsJson_clean {words : List Bytes} (clean : outputOption ∉ words) :
    requestsJson words = false := by
  induction words with
  | nil => rfl
  | cons word rest ih =>
      rw [List.mem_cons, not_or] at clean
      cases rest with
      | nil => rfl
      | cons next rest =>
          rw [requestsJson, decide_eq_false fun both => clean.1 both.1.symm, ih clean.2]
          rfl

theorem OutputWords.apart {output : CommandOutput} {options : List Bytes}
    (asked : OutputWords output options) : ∀ word ∈ options.head?, word ≠ asciiBytes "json" := by
  cases asked with
  | silent => nofun
  | human => decide
  | json => decide

theorem OutputWords.requests {output : CommandOutput} {options : List Bytes}
    (asked : OutputWords output options) : requestsJson options = decide (output = .json) := by
  cases asked with
  | silent => rfl
  | human => decide
  | json => decide

theorem StateWords.apart {state : Bytes} {states : List Bytes} (stated : StateWords state states) :
    ∀ word ∈ states.head?, word ≠ asciiBytes "json" := by
  cases stated with
  | silent => nofun
  | asked listed =>
      intro word first
      obtain rfl : stateOption = word := Option.some.inj first
      decide

theorem StateWords.requests {state : Bytes} {states : List Bytes}
    (stated : StateWords state states) : requestsJson states = false := by
  cases stated with
  | silent => rfl
  | asked listed =>
      rw [requestsJson, decide_eq_false fun both => absurd both.1 (by decide)]
      rfl

/-- The words before the options, and what is asked for behind them. -/
theorem requests_of_output {words before options : List Bytes} {output : CommandOutput}
    (same : words = before ++ options) (clean : outputOption ∉ before)
    (asked : OutputWords output options) : requestsJson words = true ↔ output = .json := by
  rw [same, requestsJson_append asked.apart, requestsJson_clean clean, asked.requests,
    Bool.false_or, decide_eq_true_iff]

theorem target_ne_option {owner repository target : Bytes}
    (named : TargetWord owner repository target) : outputOption ≠ target := by
  intro same
  have slash : (47 : UInt8) ∈ outputOption := by
    rw [same, named.1]
    exact List.mem_append_right _ List.mem_cons_self
  exact absurd slash (by decide)

theorem number_ne_option {number : Int} {word : Bytes} (read : NumberWord number word) :
    outputOption ≠ word := by
  rintro rfl
  have unread : parseI64 outputOption = none := by decide
  have parsed := read.1
  rw [unread] at parsed
  cases parsed

section Heads

variable {family operation : String} {owner repository : Bytes} {words rest : List Bytes}
  {output : CommandOutput}

theorem Heads.clean (heads : Heads family operation owner repository words rest)
    (other : outputOption ≠ asciiBytes family) (other' : outputOption ≠ asciiBytes operation) :
    ∃ before, words = before ++ rest ∧ outputOption ∉ before := by
  obtain ⟨target, same, named⟩ := heads
  refine ⟨[asciiBytes family, asciiBytes operation, target], same, ?_⟩
  simp only [List.mem_cons, List.not_mem_nil, or_false, not_or]
  exact ⟨other, other', target_ne_option named⟩

theorem Heads.requests (heads : Heads family operation owner repository words rest)
    (other : outputOption ≠ asciiBytes family) (other' : outputOption ≠ asciiBytes operation)
    (asked : OutputWords output rest) : requestsJson words = true ↔ output = .json := by
  obtain ⟨before, same, clean⟩ := heads.clean other other'
  exact requests_of_output same clean asked

theorem Heads.requests_numbered (heads : Heads family operation owner repository words rest)
    (other : outputOption ≠ asciiBytes family) (other' : outputOption ≠ asciiBytes operation)
    {number : Int} (numbered : NumberedWords number output rest) :
    requestsJson words = true ↔ output = .json := by
  obtain ⟨before, same, clean⟩ := heads.clean other other'
  obtain ⟨word, options, rfl, read, asked⟩ := numbered
  have split : words = (before ++ [word]) ++ options := by
    rw [same, List.append_assoc]
    rfl
  refine requests_of_output split ?_ asked
  rw [List.mem_append, List.mem_singleton, not_or]
  exact ⟨clean, number_ne_option read⟩

theorem Heads.requests_list (heads : Heads family operation owner repository words rest)
    (other : outputOption ≠ asciiBytes family) (other' : outputOption ≠ asciiBytes operation)
    {state : Bytes} (listed : ListWords state output rest) :
    requestsJson words = true ↔ output = .json := by
  obtain ⟨before, same, clean⟩ := heads.clean other other'
  obtain ⟨states, outputs, stated, asked, order⟩ := listed
  rw [same]
  rcases order with rfl | rfl
  · rw [← List.append_assoc, requestsJson_append asked.apart, requestsJson_append stated.apart,
      requestsJson_clean clean, stated.requests, asked.requests, Bool.false_or, Bool.false_or,
      decide_eq_true_iff]
  · rw [← List.append_assoc, requestsJson_append stated.apart, requestsJson_append asked.apart,
      requestsJson_clean clean, stated.requests, asked.requests, Bool.false_or, Bool.or_false,
      decide_eq_true_iff]

end Heads

def OrganizationCommand.output : OrganizationCommand → CommandOutput
  | .create _ _ output | .setMember _ _ _ output | .removeMember _ _ output => output

def IssueCommand.output : IssueCommand → CommandOutput
  | .list _ _ output | .create _ _ output | .comment _ _ _ output
  | .setState _ _ _ _ output => output

def PullRequestCommand.output : PullRequestCommand → CommandOutput
  | .list _ _ _ output | .create _ _ _ _ output | .checkout _ _ _ output
  | .setState _ _ _ _ output => output

/-- A pull request from the branch `json` into the branch `--output`. -/
def PullRequestCommand.Misread : PullRequestCommand → Prop
  | .create _ _ base head _ => base = outputOption ∧ head = asciiBytes "json"
  | _ => False

theorem organization_requests {words : List Bytes} {command : OrganizationCommand}
    (spelled : command.Spelled words) : requestsJson words = true ↔ command.output = .json := by
  obtain ⟨before, options, same, clean, spelled⟩ := spelled
  cases command with
  | create slug displayName output => exact requests_of_output same clean spelled.1
  | setMember organization username role output => exact requests_of_output same clean spelled.1
  | removeMember organization username output => exact requests_of_output same clean spelled.1

theorem repository_requests {words : List Bytes} {command : RepositoryCreateCommand}
    (spelled : command.Spelled words) : requestsJson words = true ↔ command.output = .json := by
  obtain ⟨options, rfl, asked⟩ := spelled
  rw [show asciiBytes "repo" :: asciiBytes "create" :: command.slug :: options =
    [asciiBytes "repo", asciiBytes "create", command.slug] ++ options from rfl,
    requestsJson_append asked.apart, asked.requests]
  have first : requestsJson [asciiBytes "repo", asciiBytes "create", command.slug] = false := by
    rw [requestsJson, requestsJson, decide_eq_false fun both => absurd both.1 (by decide),
      decide_eq_false fun both => absurd both.1 (by decide)]
    rfl
  rw [first, Bool.false_or, decide_eq_true_iff]

theorem issue_requests {words : List Bytes} {command : IssueCommand}
    (spelled : command.Spelled words) : requestsJson words = true ↔ command.output = .json := by
  obtain ⟨rest, spelled⟩ := spelled
  cases command with
  | list owner repository output => exact spelled.1.requests (by decide) (by decide) spelled.2
  | create owner repository output => exact spelled.1.requests (by decide) (by decide) spelled.2
  | comment owner repository number output =>
      exact spelled.1.requests_numbered (by decide) (by decide) spelled.2
  | setState owner repository number closed output =>
      exact spelled.1.requests_numbered (by decide) (by cases closed <;> decide) spelled.2

theorem pullRequest_requests {words : List Bytes} {command : PullRequestCommand}
    (spelled : command.Spelled words) :
    requestsJson words = true ↔ command.output = .json ∨ command.Misread := by
  obtain ⟨rest, spelled⟩ := spelled
  cases command with
  | list owner repository state output =>
      exact (spelled.1.requests_list (by decide) (by decide) spelled.2).trans
        (iff_of_eq (or_false _)).symm
  | create owner repository base head output =>
      obtain ⟨⟨target, rfl, named⟩, options, rfl, asked⟩ := spelled
      have other : ¬(target = outputOption ∧ base = asciiBytes "json") :=
        fun both => target_ne_option named both.1.symm
      have first : requestsJson [asciiBytes "pr", asciiBytes "create", target, base, head] =
          decide (base = outputOption ∧ head = asciiBytes "json") := by
        rw [requestsJson, requestsJson, requestsJson, requestsJson,
          decide_eq_false fun both => absurd both.1 (by decide),
          decide_eq_false fun both => absurd both.1 (by decide), decide_eq_false other]
        simp [requestsJson]
      rw [show asciiBytes "pr" :: asciiBytes "create" :: target :: base :: head :: options =
        [asciiBytes "pr", asciiBytes "create", target, base, head] ++ options from rfl,
        requestsJson_append asked.apart, asked.requests, first, Bool.or_eq_true,
        decide_eq_true_iff, decide_eq_true_iff, or_comm]
      exact Iff.rfl
  | checkout owner repository number output =>
      exact (spelled.1.requests_numbered (by decide) (by decide) spelled.2).trans
        (iff_of_eq (or_false _)).symm
  | setState owner repository number closed output =>
      exact (spelled.1.requests_numbered (by decide) (by cases closed <;> decide) spelled.2).trans
        (iff_of_eq (or_false _)).symm

/-- What an answer looks like is decided by the line. -/
structure OneForm (line : Bytes) : Prop where
  organization : ∀ c, parseOrganizationCommand line = some c →
    (requestsJson (splitAsciiWhitespace line) = true ↔ c.output = .json)
  repository : ∀ c, parseRepositoryCommand line = some c →
    (requestsJson (splitAsciiWhitespace line) = true ↔ c.output = .json)
  issue : ∀ c, parseIssueCommand line = some c →
    (requestsJson (splitAsciiWhitespace line) = true ↔ c.output = .json)
  pullRequest : ∀ c, parsePullRequestCommand line = some c →
    (requestsJson (splitAsciiWhitespace line) = true ↔ c.output = .json ∨ c.Misread)

/-- **A command that is accepted and one that is refused answer in one form.** -/
theorem answers_in_one_form (line : Bytes) : OneForm line := by
  have reads := commands_read line
  refine ⟨fun c read => ?_, fun c read => ?_, fun c read => ?_, fun c read => ?_⟩
  · exact organization_requests ((reads.organization c).mp read).2
  · exact repository_requests ((reads.repository c).mp read).2
  · exact issue_requests ((reads.issue c).mp read).2
  · exact pullRequest_requests ((reads.pullRequest c).mp read).2

end Tit.Ssh
