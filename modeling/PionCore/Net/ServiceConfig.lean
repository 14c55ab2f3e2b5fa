/-
# Service configurations

`WebServer::loadServiceConfig` reads a text letter by letter, and performs a command when it comes
to the end of its line.  A last line that is not ended is never performed, and nobody is told.

What the calls do to the server, and what they throw, is a parameter.  Lines and commands have a
grammar of their own here; what a text says is the commands of its lines, up to one that throws or
is malformed.
-/
import PionCore.Lib.Ascii
import PionCore.Lib.Scan
import Mathlib.Data.List.TakeWhile

namespace PionCore.Net.WebServer

open PionCore.Lib

/-- The calls that `loadServiceConfig` makes. -/
inductive ConfigCall where
  | addPluginDirectory (dir : Bytes)
  /-- `auth_ptr.reset` with a new `HTTPBasicAuth` or `HTTPCookieAuth` -/
  | resetAuth (cookie : Bool)
  | addRestrict (resource : Bytes)
  | addUser (username password : Bytes)
  | loadService (resource serviceName : Bytes)
  | setServiceOption (resource name value : Bytes)
  /-- with an `auth_ptr` that is set or not -/
  | setAuthentication (auth : Bool)
deriving DecidableEq

inductive ConfigError where
  | configNotFound (configName : Bytes)
  | configParsing (configName : Bytes)
  | authConfig (message : Bytes)
  /-- what a call throws -/
  | thrown (message : Bytes)
deriving DecidableEq

/-- What a configuration has done so far. -/
structure Loaded (σ : Type*) where
  server : σ
  calls : List ConfigCall := []
  /-- `auth_ptr` is set -/
  hasAuth : Bool := false

/-- `isalpha`. -/
def isAlpha (c : Byte) : Bool := 65 ≤ c ∧ c ≤ 90 ∨ 97 ≤ c ∧ c ≤ 122

def isBlank (c : Byte) : Bool := c = 32 ∨ c = 9

def isLineEnd (c : Byte) : Bool := c = 13 ∨ c = 10

inductive ConfigParseState where
  | newline | command | resource | value | comment | username
deriving DecidableEq

/-- The local variables of `loadServiceConfig`. -/
structure ConfigReader (σ : Type*) where
  loaded : Loaded σ
  parseState : ConfigParseState := .newline
  commandString : Bytes := []
  resourceString : Bytes := []
  usernameString : Bytes := []
  valueString : Bytes := []

section Reader

variable {σ : Type*} (exec : σ → ConfigCall → σ × Option Bytes) (configName : Bytes)

/-- A call. -/
def Loaded.call (s : Loaded σ) (c : ConfigCall) : Loaded σ × Option ConfigError :=
  let (server, thrown) := exec s.server c
  ({ s with server := server, calls := s.calls ++ [c] }, thrown.map .thrown)

/-- `setAuthentication`, unless something was thrown. -/
def finishLoading (p : Loaded σ × Option ConfigError) : Loaded σ × Option ConfigError :=
  match p.2 with
  | some _ => p
  | none => p.1.call exec (.setAuthentication p.1.hasAuth)

/-- The `auth` command. -/
def Loaded.auth (s : Loaded σ) (authType : Bytes) : Loaded σ × Option ConfigError :=
  if authType = ascii "basic" then
    ({ (s.call exec (.resetAuth false)).1 with hasAuth := true }, none)
  else if authType = ascii "cookie" then
    ({ (s.call exec (.resetAuth true)).1 with hasAuth := true }, none)
  else (s, some (.authConfig (ascii "Only basic and cookie authentications are supported")))

namespace ConfigReader

/-- A command at the end of its line. -/
def finishCommand (x : ConfigReader σ) : Loaded σ × Option ConfigError :=
  let s := x.loaded
  let value := x.valueString
  if value = [] then (s, some (.configParsing configName))
  else if x.commandString = ascii "path" then
    -- an exception is logged
    ((s.call exec (.addPluginDirectory value)).1, none)
  else if x.commandString = ascii "auth" then s.auth exec value
  else if x.commandString = ascii "restrict" then
    if ! s.hasAuth then
      (s, some (.authConfig (ascii "Authentication type must be defined before restrict")))
    else s.call exec (.addRestrict value)
  else if x.commandString = ascii "user" then
    if ! s.hasAuth then
      (s, some (.authConfig (ascii "Authentication type must be defined before users")))
    else s.call exec (.addUser x.usernameString value)
  else if x.commandString = ascii "service" then
    s.call exec (.loadService x.resourceString value)
  else if x.commandString = ascii "option" then
    if 61 ∈ value then
      s.call exec (.setServiceOption x.resourceString (value.takeWhile (· ≠ 61))
        (value.dropWhile (· ≠ 61)).tail)
    else (s, some (.configParsing configName))
  else (s, none)

/-- A turn of the loop. -/
def turn (x : ConfigReader σ) (c : Byte) : Turn (ConfigReader σ) ConfigError :=
  match x.parseState with
  | .newline =>
      if c = 35 then .next { x with parseState := .comment }
      else if isAlpha c then
        .next { x with parseState := .command, commandString := x.commandString ++ [toLower c] }
      else if isLineEnd c then .next x
      else .stop true (.configParsing configName) x
  | .command =>
      if isBlank c then
        if x.commandString = ascii "path" ∨ x.commandString = ascii "auth" ∨
            x.commandString = ascii "restrict" then
          .next { x with parseState := .value, valueString := [] }
        else if x.commandString = ascii "service" ∨ x.commandString = ascii "option" then
          .next { x with parseState := .resource, resourceString := [] }
        else if x.commandString = ascii "user" then
          .next { x with parseState := .username, usernameString := [] }
        else .stop true (.configParsing configName) x
      else if ! isAlpha c then .stop true (.configParsing configName) x
      else .next { x with commandString := x.commandString ++ [toLower c] }
  | .resource =>
      if isBlank c then
        if x.resourceString = [] then .next x
        else .next { x with parseState := .value, valueString := [] }
      else if isLineEnd c then .stop true (.configParsing configName) x
      else .next { x with resourceString := x.resourceString ++ [c] }
  | .username =>
      if isBlank c then
        if x.usernameString = [] then .next x
        else .next { x with parseState := .value, valueString := [] }
      else if isLineEnd c then
        .stop true (.authConfig (ascii "No username defined for user parameter")) x
      else .next { x with usernameString := x.usernameString ++ [c] }
  | .value =>
      if isLineEnd c then
        match x.finishCommand exec configName with
        | (s, none) => .next { x with loaded := s, commandString := [], parseState := .newline }
        | (s, some error) => .stop true error { x with loaded := s }
      else if isBlank c then
        if x.valueString = [] then .next x else .next { x with valueString := x.valueString ++ [c] }
      else .next { x with valueString := x.valueString ++ [c] }
  | .comment => if isLineEnd c then .next { x with parseState := .newline } else .next x

end ConfigReader

/-- `loadServiceConfig`: no file is found, or it cannot be opened, or its text is read. -/
def loadServiceConfig (server : σ) (file : Option (Option Bytes)) :
    Loaded σ × Option ConfigError :=
  match file with
  | none => ({ server := server }, some (.configNotFound configName))
  | some none => ({ server := server }, some (.configParsing configName))
  | some (some text) =>
      let x := scan (ConfigReader.turn exec configName) { loaded := { server := server } } text
      finishLoading exec (x.state.loaded, x.result)

end Reader

/-! ### What a text says -/

inductive ConfigCommand where
  | path (dir : Bytes)
  | auth (authType : Bytes)
  | restrict (resource : Bytes)
  | user (username password : Bytes)
  | service (resource serviceName : Bytes)
  | option (resource name value : Bytes)
deriving DecidableEq

/-- The blanks between two tokens. -/
def IsGap (gap : Bytes) : Prop := gap ≠ [] ∧ ∀ c ∈ gap, isBlank c = true

/-- An argument without blanks. -/
def IsWord (word : Bytes) : Prop := word ≠ [] ∧ ∀ c ∈ word, isBlank c = false

/-- A last argument, which goes up to the end of the line. -/
def IsValue (value : Bytes) : Prop := ∃ c ∈ value.head?, isBlank c = false

/-- The commands with one argument. -/
def oneArgument (name value : Bytes) : Option ConfigCommand :=
  if name = ascii "path" then some (.path value)
  else if name = ascii "auth" then some (.auth value)
  else if name = ascii "restrict" then some (.restrict value)
  else none

/-- The commands with two arguments, the second of which is `name=value` for `option`. -/
def twoArguments (name first value : Bytes) : Option ConfigCommand :=
  if name = ascii "user" then some (.user first value)
  else if name = ascii "service" then some (.service first value)
  else if name = ascii "option" ∧ 61 ∈ value then
    some (.option first (value.takeWhile (· ≠ 61)) (value.dropWhile (· ≠ 61)).tail)
  else none

/-- The lines of a configuration, and the commands that they are. -/
inductive IsLine : Bytes → Option ConfigCommand → Prop where
  | blank : IsLine [] none
  | comment (text : Bytes) : IsLine (35 :: text) none
  | one {word gap value : Bytes} {command : ConfigCommand} (hgap : IsGap gap)
      (hvalue : IsValue value) (hcommand : oneArgument (word.map toLower) value = some command) :
      IsLine (word ++ (gap ++ value)) (some command)
  | two {word gap first gap' value : Bytes} {command : ConfigCommand} (hgap : IsGap gap)
      (hfirst : IsWord first) (hgap' : IsGap gap') (hvalue : IsValue value)
      (hcommand : twoArguments (word.map toLower) first value = some command) :
      IsLine (word ++ (gap ++ (first ++ (gap' ++ value)))) (some command)

/-- The command of a line that is not blank and no comment. -/
def readCommand (line : Bytes) : Option ConfigCommand :=
  let name := (line.takeWhile isAlpha).map toLower
  let rest := line.dropWhile isAlpha
  let arguments := rest.dropWhile isBlank
  let first := arguments.takeWhile (! isBlank ·)
  let value := (arguments.dropWhile (! isBlank ·)).dropWhile isBlank
  if arguments = rest ∨ arguments = [] then none
  else
    match oneArgument name arguments with
    | some command => some command
    | none => if value = [] then none else twoArguments name first value

/-- What a line is, unless it is malformed. -/
def readLine (line : Bytes) : Option (Option ConfigCommand) :=
  match line with
  | [] => some none
  | c :: _ => if c = 35 then some none else (readCommand line).map some

section Text

variable {σ : Type*} (exec : σ → ConfigCall → σ × Option Bytes) (configName : Bytes)

/-- Restrictions and users need an authentication. -/
def ConfigCommand.perform (s : Loaded σ) : ConfigCommand → Loaded σ × Option ConfigError
  | .path dir => ((s.call exec (.addPluginDirectory dir)).1, none)
  | .auth authType => s.auth exec authType
  | .restrict resource =>
      if s.hasAuth then s.call exec (.addRestrict resource)
      else (s, some (.authConfig (ascii "Authentication type must be defined before restrict")))
  | .user username password =>
      if s.hasAuth then s.call exec (.addUser username password)
      else (s, some (.authConfig (ascii "Authentication type must be defined before users")))
  | .service resource serviceName => s.call exec (.loadService resource serviceName)
  | .option resource name value => s.call exec (.setServiceOption resource name value)

def performLine (s : Loaded σ) (line : Bytes) : Loaded σ × Option ConfigError :=
  match readLine line with
  | none => (s, some (.configParsing configName))
  | some none => (s, none)
  | some (some command) => command.perform exec s

/-- The lines are performed up to one that throws. -/
def performLines (s : Loaded σ) : List Bytes → Loaded σ × Option ConfigError
  | [] => (s, none)
  | line :: lines =>
      match performLine exec configName s line with
      | (s', none) => performLines s' lines
      | (s', some error) => (s', some error)

/-- All lines, with the last one, and then the authentication. -/
def performText (server : σ) (text : Bytes) : Loaded σ × Option ConfigError :=
  finishLoading exec
    (performLines exec configName { server := server } (text.splitOnP isLineEnd))

/-- The same calls with the same effects, and something is thrown or not. -/
def SameEffect (p q : Loaded σ × Option ConfigError) : Prop :=
  p.1 = q.1 ∧ p.2.isSome = q.2.isSome

/-- A configuration does what its text says. -/
def TakesEffect (server : σ) (text : Bytes) : Prop :=
  SameEffect (loadServiceConfig exec configName server (some (some text)))
    (performText exec configName server text)

end Text

/-- The names of the commands. -/
def commandNames : List Bytes :=
  [ascii "path", ascii "auth", ascii "restrict", ascii "user", ascii "service", ascii "option"]

/-- A line that may go on as a command: a word, or the name of a command and a blank. -/
def beginsCommand (line : Bytes) : Bool :=
  ! (line.takeWhile isAlpha).isEmpty &&
    match line.dropWhile isAlpha with
    | [] => true
    | c :: _ => isBlank c && commandNames.any fun name => name = (line.takeWhile isAlpha).map toLower

/-! ### The grammar -/

lemma isAlpha_of_toLower {c : Byte} (h : isAlpha (toLower c) = true) : isAlpha c = true := by
  simp only [isAlpha, toLower, decide_eq_true_eq, UInt8.le_iff_toNat_le] at h ⊢
  split_ifs at h with hupper
  · exact .inl hupper
  · exact h

lemma not_isAlpha_of_isBlank {c : Byte} (h : isBlank c = true) : isAlpha c = false := by
  rw [isBlank, decide_eq_true_eq] at h
  rcases h with rfl | rfl <;> decide

lemma not_isAlpha_of_isLineEnd {c : Byte} (h : isLineEnd c = true) : isAlpha c = false := by
  rw [isLineEnd, decide_eq_true_eq] at h
  rcases h with rfl | rfl <;> decide

lemma not_isBlank_of_isLineEnd {c : Byte} (h : isLineEnd c = true) : isBlank c = false := by
  rw [isLineEnd, decide_eq_true_eq] at h
  rcases h with rfl | rfl <;> decide

lemma oneArgument_isSome {name value : Bytes} :
    (oneArgument name value).isSome = true ↔
      name ∈ [ascii "path", ascii "auth", ascii "restrict"] := by
  rw [oneArgument]
  split_ifs <;> simp_all

lemma mem_of_twoArguments {name first value : Bytes} {command : ConfigCommand}
    (h : twoArguments name first value = some command) :
    name ∈ [ascii "user", ascii "service", ascii "option"] := by
  rw [twoArguments] at h
  split_ifs at h <;> simp_all

lemma mem_commandNames_of_oneArgument {name value : Bytes} {command : ConfigCommand}
    (h : oneArgument name value = some command) : name ∈ commandNames :=
  List.mem_append_left [ascii "user", ascii "service", ascii "option"]
    (oneArgument_isSome.1 (by rw [h]; rfl))

lemma mem_commandNames_of_twoArguments {name first value : Bytes} {command : ConfigCommand}
    (h : twoArguments name first value = some command) : name ∈ commandNames :=
  List.mem_append_right [ascii "path", ascii "auth", ascii "restrict"] (mem_of_twoArguments h)

lemma two_disjoint_one : ∀ name ∈ [ascii "user", ascii "service", ascii "option"],
    name ∉ [ascii "path", ascii "auth", ascii "restrict"] := by
  decide +kernel

/-- A name has two arguments, or one. -/
lemma oneArgument_of_twoArguments {name first value value' : Bytes} {command : ConfigCommand}
    (h : twoArguments name first value = some command) : oneArgument name value' = none := by
  rw [← Option.not_isSome_iff_eq_none, oneArgument_isSome]
  exact two_disjoint_one name (mem_of_twoArguments h)

/-- The names of the commands are letters. -/
lemma isAlpha_of_mem {word : Bytes} (h : word.map toLower ∈ commandNames) :
    word ≠ [] ∧ ∀ c ∈ word, isAlpha c = true := by
  have hnames : ∀ name ∈ commandNames, name ≠ [] ∧ name.all isAlpha = true := by
    decide +kernel
  obtain ⟨hne, hall⟩ := hnames _ h
  refine ⟨fun hnil => hne (by rw [hnil]; rfl), fun c hc => isAlpha_of_toLower ?_⟩
  exact List.all_eq_true.1 hall _ (List.mem_map_of_mem hc)

lemma dropWhile_gap {gap : Bytes} (hgap : ∀ c ∈ gap, isBlank c = true) {s : Bytes}
    (hs : IsValue s) : (gap ++ s).dropWhile isBlank = s := by
  obtain ⟨c, hc, hblank⟩ := hs
  cases s with
  | nil => cases hc
  | cons d s =>
    obtain rfl : d = c := Option.some.inj hc
    rw [List.dropWhile_append_of_pos hgap, List.dropWhile_cons, hblank]
    rfl

lemma IsValue.ne_nil {value : Bytes} (hvalue : IsValue value) : value ≠ [] := by
  rintro rfl
  obtain ⟨c, hc, -⟩ := hvalue
  cases hc

lemma IsGap.head {gap : Bytes} (hgap : IsGap gap) (s : Bytes) :
    ∃ c t, gap ++ s = c :: t ∧ isBlank c = true := by
  cases gap with
  | nil => exact absurd rfl hgap.1
  | cons c gap => exact ⟨c, gap ++ s, rfl, hgap.2 c List.mem_cons_self⟩

lemma IsWord.isValue {word : Bytes} (hword : IsWord word) (s : Bytes) : IsValue (word ++ s) := by
  cases word with
  | nil => exact absurd rfl hword.1
  | cons c word => exact ⟨c, rfl, hword.2 c List.mem_cons_self⟩

/-- The name of a command in front of a gap. -/
lemma span_name {word gap s : Bytes} (hword : word.map toLower ∈ commandNames) (hgap : IsGap gap) :
    (word ++ (gap ++ s)).takeWhile isAlpha = word ∧
      (word ++ (gap ++ s)).dropWhile isAlpha = gap ++ s := by
  obtain ⟨c, t, ht, hblank⟩ := hgap.head s
  have halpha := (isAlpha_of_mem hword).2
  rw [List.takeWhile_append_of_pos halpha, List.dropWhile_append_of_pos halpha, ht,
    List.takeWhile_cons, List.dropWhile_cons, not_isAlpha_of_isBlank hblank]
  exact ⟨List.append_nil word, rfl⟩

lemma span_word {word gap s : Bytes} (hword : IsWord word) (hgap : IsGap gap) :
    (word ++ (gap ++ s)).takeWhile (! isBlank ·) = word ∧
      (word ++ (gap ++ s)).dropWhile (! isBlank ·) = gap ++ s := by
  obtain ⟨c, t, ht, hblank⟩ := hgap.head s
  have hnot : ∀ c ∈ word, (! isBlank c) = true := fun c hc => by rw [hword.2 c hc]; rfl
  rw [List.takeWhile_append_of_pos hnot, List.dropWhile_append_of_pos hnot, ht,
    List.takeWhile_cons, List.dropWhile_cons, hblank]
  exact ⟨List.append_nil word, rfl⟩

/-- Arguments behind a gap. -/
lemma readCommand_gap {word gap s : Bytes} (hword : word.map toLower ∈ commandNames)
    (hgap : IsGap gap) (hs : IsValue s) :
    readCommand (word ++ (gap ++ s)) =
      match oneArgument (word.map toLower) s with
      | some command => some command
      | none =>
          if (s.dropWhile (! isBlank ·)).dropWhile isBlank = [] then none
          else twoArguments (word.map toLower) (s.takeWhile (! isBlank ·))
            ((s.dropWhile (! isBlank ·)).dropWhile isBlank) := by
  obtain ⟨htake, hdrop⟩ := span_name (s := s) hword hgap
  have hne : ¬ (s = gap ++ s ∨ s = []) := by
    rintro (heq | rfl)
    · exact hgap.1 (List.self_eq_append_left.1 heq)
    · exact hs.ne_nil rfl
  simp only [readCommand, htake, hdrop, dropWhile_gap hgap.2 hs, if_neg hne]

/-- Blanks that are skipped are a gap, if there are any. -/
lemma isGap_takeWhile {s : Bytes} (h : s.dropWhile isBlank ≠ s) : IsGap (s.takeWhile isBlank) := by
  refine ⟨fun hnil => h ?_, fun c hc => List.mem_takeWhile_imp hc⟩
  have hsplit := List.takeWhile_append_dropWhile (p := isBlank) (l := s)
  rwa [hnil, List.nil_append] at hsplit

lemma isValue_dropWhile {s : Bytes} (h : s.dropWhile isBlank ≠ []) :
    IsValue (s.dropWhile isBlank) := by
  obtain ⟨c, t, ht⟩ := List.exists_cons_of_ne_nil h
  have hhead := List.head?_dropWhile_not isBlank s
  rw [ht] at hhead ⊢
  exact ⟨c, rfl, hhead⟩

/-- A command is read where the grammar has one. -/
lemma isLine_of_readCommand {line : Bytes} {command : ConfigCommand}
    (h : readCommand line = some command) : IsLine line (some command) := by
  obtain ⟨hno, h⟩ := Option.ite_none_left_eq_some.1 h
  obtain ⟨hgap, hne⟩ := not_or.1 hno
  have hgap' := isGap_takeWhile hgap
  have hvalue := isValue_dropWhile hne
  have hline : line = line.takeWhile isAlpha ++ ((line.dropWhile isAlpha).takeWhile isBlank ++
      (line.dropWhile isAlpha).dropWhile isBlank) := by
    rw [List.takeWhile_append_dropWhile, List.takeWhile_append_dropWhile]
  generalize (line.dropWhile isAlpha).takeWhile isBlank = gap at hgap' hline
  generalize (line.dropWhile isAlpha).dropWhile isBlank = arguments at h hvalue hline
  cases hone : oneArgument ((line.takeWhile isAlpha).map toLower) arguments with
  | some command' =>
    rw [hone] at h
    obtain rfl := Option.some.inj h
    rw [hline]
    exact .one hgap' hvalue hone
  | none =>
    rw [hone] at h
    obtain ⟨hempty, h⟩ := Option.ite_none_left_eq_some.1 h
    have harguments : arguments = arguments.takeWhile (! isBlank ·) ++
        ((arguments.dropWhile (! isBlank ·)).takeWhile isBlank ++
          (arguments.dropWhile (! isBlank ·)).dropWhile isBlank) := by
      rw [List.takeWhile_append_dropWhile, List.takeWhile_append_dropWhile]
    rw [hline, harguments]
    refine .two hgap' ⟨fun hnil => ?_, fun c hc => ?_⟩ ?_ (isValue_dropWhile hempty) h
    · obtain ⟨c, hc, hblank⟩ := hvalue
      cases arguments with
      | nil => cases hc
      | cons d s =>
        obtain rfl : d = c := Option.some.inj hc
        rw [List.takeWhile_cons, hblank] at hnil
        cases hnil
    · simpa using List.mem_takeWhile_imp hc
    · refine isGap_takeWhile fun heq => ?_
      obtain ⟨c, t, ht⟩ := List.exists_cons_of_ne_nil hempty
      have hblank := List.head?_dropWhile_not (! isBlank ·) arguments
      rw [← heq, ht] at hblank
      obtain ⟨d, hd, hnot⟩ := isValue_dropWhile hempty
      rw [ht] at hd
      obtain rfl : c = d := Option.some.inj hd
      simp [hnot] at hblank

/-- Lines are read as the grammar has them. -/
theorem readLine_eq_some_iff {line : Bytes} {command : Option ConfigCommand} :
    readLine line = some command ↔ IsLine line command := by
  constructor
  · intro h
    cases line with
    | nil =>
      obtain rfl := Option.some.inj h
      exact .blank
    | cons c text =>
      simp only [readLine] at h
      split_ifs at h with hc
      · subst hc
        obtain rfl := Option.some.inj h
        exact .comment text
      · obtain ⟨command, hcommand, rfl⟩ := Option.map_eq_some_iff.1 h
        exact isLine_of_readCommand hcommand
  · have hread {word s : Bytes} {command : ConfigCommand} (hword : word.map toLower ∈ commandNames)
        (hcommand : readCommand (word ++ s) = some command) :
        readLine (word ++ s) = some (some command) := by
      obtain ⟨hne, halpha⟩ := isAlpha_of_mem hword
      obtain ⟨c, t, rfl⟩ := List.exists_cons_of_ne_nil hne
      have hc : c ≠ 35 := by
        rintro rfl
        exact absurd (halpha 35 List.mem_cons_self) (by decide)
      rw [List.cons_append, readLine, if_neg hc, ← List.cons_append, hcommand]
      rfl
    intro h
    cases h with
    | blank => rfl
    | comment text => rfl
    | one hgap hvalue hcommand =>
      have hword := mem_commandNames_of_oneArgument hcommand
      refine hread hword ?_
      rw [readCommand_gap hword hgap hvalue, hcommand]
    | two hgap hfirst hgap' hvalue hcommand =>
      have hword := mem_commandNames_of_twoArguments hcommand
      refine hread hword ?_
      rw [readCommand_gap hword hgap (hfirst.isValue _), oneArgument_of_twoArguments hcommand,
        (span_word hfirst hgap').1, (span_word hfirst hgap').2, dropWhile_gap hgap'.2 hvalue]
      simp only [hvalue.ne_nil, if_false, hcommand]

/-- The arguments behind the first blank. -/
lemma readCommand_blank {line s : Bytes} {c : Byte} (hrest : line.dropWhile isAlpha = c :: s)
    (hc : isBlank c = true) :
    readCommand line =
      let arguments := s.dropWhile isBlank
      let value := (arguments.dropWhile (! isBlank ·)).dropWhile isBlank
      if arguments = [] then none
      else
        match oneArgument ((line.takeWhile isAlpha).map toLower) arguments with
        | some command => some command
        | none =>
            if value = [] then none
            else twoArguments ((line.takeWhile isAlpha).map toLower)
              (arguments.takeWhile (! isBlank ·)) value := by
  have hdrop : (c :: s).dropWhile isBlank = s.dropWhile isBlank := by
    rw [List.dropWhile_cons, hc]
    rfl
  have hne : s.dropWhile isBlank ≠ c :: s := by
    intro heq
    have hlength := congrArg List.length heq
    have hle := (List.dropWhile_sublist isBlank (l := s)).length_le
    rw [List.length_cons] at hlength
    omega
  simp only [readCommand, hrest, hdrop, hne, false_or]

/-- A line that is a command begins with its name. -/
lemma beginsCommand_of_readCommand {line : Bytes} {command : ConfigCommand}
    (h : readCommand line = some command) : beginsCommand line = true := by
  have hline := isLine_of_readCommand h
  cases hline with
  | one hgap hvalue hcommand =>
    have hword := mem_commandNames_of_oneArgument hcommand
    obtain ⟨htake, hdrop⟩ := span_name (s := _) hword hgap
    obtain ⟨c, t, ht, hc⟩ := hgap.head _
    rw [beginsCommand, htake, hdrop, ht]
    simp [(isAlpha_of_mem hword).1, hc, hword]
  | two hgap hfirst hgap' hvalue hcommand =>
    have hword := mem_commandNames_of_twoArguments hcommand
    obtain ⟨htake, hdrop⟩ := span_name (s := _) hword hgap
    obtain ⟨c, t, ht, hc⟩ := hgap.head _
    rw [beginsCommand, htake, hdrop, ht]
    simp [(isAlpha_of_mem hword).1, hc, hword]

/-! ### Reading a line -/

lemma foldl_lower {s t : Bytes} :
    t.foldl (fun acc c => acc ++ [toLower c]) s = s ++ t.map toLower := by
  induction t generalizing s with
  | nil => rw [List.foldl_nil, List.map_nil, List.append_nil]
  | cons c t ih => rw [List.foldl_cons, ih, List.append_assoc, List.map_cons, List.singleton_append]

lemma foldl_snoc {s t : Bytes} : t.foldl (fun acc c => acc ++ [c]) s = s ++ t := by
  induction t generalizing s with
  | nil => rw [List.foldl_nil, List.append_nil]
  | cons c t ih => rw [List.foldl_cons, ih, List.append_assoc, List.singleton_append]

section Scan

variable {σ : Type*} {exec : σ → ConfigCall → σ × Option Bytes} {configName : Bytes}

namespace ConfigReader

variable {x : ConfigReader σ} {s : Bytes}

/-- A value goes up to the end of the line. -/
lemma scan_value (hstate : x.parseState = .value) (hvalue : x.valueString = [])
    (hs : ∀ c ∈ s, isLineEnd c = false) :
    scan (turn exec configName) x s =
      ⟨none, [], { x with valueString := s.dropWhile isBlank }⟩ := by
  have hskip : ∀ (_ : Unit) (c : Byte), isBlank c = true →
      turn exec configName x c = .next x := by
    intro _ c hc
    have hend : isLineEnd c = false := by
      cases hend : isLineEnd c with
      | false => rfl
      | true => cases (not_isBlank_of_isLineEnd hend).symm.trans hc
    simp only [turn, hstate, hend, hc, hvalue, if_true, Bool.false_eq_true, if_false]
  have hgap := scan_fold (fun _ : Unit => x) (fun u _ => u) hskip
    (w := s.takeWhile isBlank) (fun c hc => List.mem_takeWhile_imp hc) () (s.dropWhile isBlank)
  rw [List.takeWhile_append_dropWhile] at hgap
  rw [hgap]
  cases hrest : s.dropWhile isBlank with
  | nil =>
    rw [scan_nil, ← hvalue]
  | cons c t =>
    have hmem : ∀ d ∈ c :: t, isLineEnd d = false := by
      rw [← hrest]
      exact fun d hd => hs d ((List.dropWhile_sublist _).mem hd)
    have hblank : isBlank c = false := by
      have hhead := List.head?_dropWhile_not isBlank s
      rwa [hrest] at hhead
    have hfirst : turn exec configName x c = .next { x with valueString := [c] } := by
      simp only [turn, hstate, hmem c List.mem_cons_self, hblank, hvalue, Bool.false_eq_true,
        if_false, List.nil_append]
    have htake : ∀ (acc : Bytes) (d : Byte), isLineEnd d = false →
        turn exec configName { x with valueString := c :: acc } d =
          .next { x with valueString := c :: (acc ++ [d]) } := by
      intro acc d hd
      simp only [turn, hstate, hd, Bool.false_eq_true, if_false, reduceCtorEq, ite_self,
        List.cons_append]
    have hcollect := scan_fold (fun acc => { x with valueString := c :: acc })
      (fun acc d => acc ++ [d]) htake (fun d hd => hmem d (List.mem_cons_of_mem c hd)) [] []
    rw [List.append_nil, scan_nil] at hcollect
    rw [scan_next hfirst, hcollect, foldl_snoc, List.nil_append]

/-- What a state does that reads a word in front of the value: the resource, or the user name. -/
structure ReadsWord (exec : σ → ConfigCall → σ × Option Bytes) (configName : Bytes)
    (emb : Bytes → ConfigReader σ) : Prop where
  skip : ∀ c, isBlank c = true → turn exec configName (emb []) c = .next (emb [])
  take : ∀ w c, isBlank c = false → isLineEnd c = false →
    turn exec configName (emb w) c = .next (emb (w ++ [c]))
  leave : ∀ w c, w ≠ [] → isBlank c = true → turn exec configName (emb w) c =
    .next { emb w with parseState := .value, valueString := [] }
  stop : ∀ w c, isLineEnd c = true →
    ∃ error, turn exec configName (emb w) c = .stop true error (emb w)

lemma readsWord_username (x : ConfigReader σ) :
    ReadsWord exec configName fun w => { x with parseState := .username, usernameString := w } where
  skip c hc := by simp only [turn, hc, if_true]
  take w c hc hend := by simp only [turn, hc, hend, Bool.false_eq_true, if_false]
  leave w c hw hc := by simp only [turn, hc, hw, if_true, if_false]
  stop w c hc := by
    simp only [turn, not_isBlank_of_isLineEnd hc, hc, if_true, Bool.false_eq_true, if_false]
    exact ⟨_, rfl⟩

lemma readsWord_resource (x : ConfigReader σ) :
    ReadsWord exec configName fun w => { x with parseState := .resource, resourceString := w } where
  skip c hc := by simp only [turn, hc, if_true]
  take w c hc hend := by simp only [turn, hc, hend, Bool.false_eq_true, if_false]
  leave w c hw hc := by simp only [turn, hc, hw, if_true, if_false]
  stop w c hc := by
    simp only [turn, not_isBlank_of_isLineEnd hc, hc, if_true, Bool.false_eq_true, if_false]
    exact ⟨_, rfl⟩

/-- A word in front of the value, and the value. -/
lemma scan_word {emb : Bytes → ConfigReader σ} (hword : ReadsWord exec configName emb)
    (hs : ∀ c ∈ s, isLineEnd c = false) :
    let arguments := s.dropWhile isBlank
    let first := arguments.takeWhile (! isBlank ·)
    let more := arguments.dropWhile (! isBlank ·)
    scan (turn exec configName) (emb []) s =
      ⟨none, [], if more = [] then emb first
        else { emb first with parseState := .value, valueString := more.dropWhile isBlank }⟩ := by
  intro arguments first more
  have hskip : ∀ (_ : Unit) (c : Byte), isBlank c = true →
      turn exec configName (emb []) c = .next (emb []) := fun _ c hc => hword.skip c hc
  have hgap := scan_fold (fun _ : Unit => emb []) (fun u _ => u) hskip
    (w := s.takeWhile isBlank) (fun c hc => List.mem_takeWhile_imp hc) () arguments
  have hmem : ∀ c ∈ arguments, isLineEnd c = false :=
    fun c hc => hs c ((List.dropWhile_sublist _).mem hc)
  have htake : ∀ (w : Bytes) (c : Byte), isBlank c = false ∧ isLineEnd c = false →
      turn exec configName (emb w) c = .next (emb (w ++ [c])) :=
    fun w c hc => hword.take w c hc.1 hc.2
  have hfirst := scan_fold emb (fun w c => w ++ [c]) htake (w := first)
    (fun c hc => ⟨by simpa using List.mem_takeWhile_imp hc,
      hmem c ((List.takeWhile_sublist _).mem hc)⟩) [] more
  rw [List.takeWhile_append_dropWhile] at hgap hfirst
  rw [foldl_snoc, List.nil_append] at hfirst
  rw [hgap, hfirst]
  cases hmore : more with
  | nil => rfl
  | cons c t =>
    have hblank : isBlank c = true := by
      have hhead := List.head?_dropWhile_not (! isBlank ·) arguments
      simpa [show arguments.dropWhile (! isBlank ·) = c :: t from hmore] using hhead
    have hne : first ≠ [] := by
      intro hnil
      have hsplit := List.takeWhile_append_dropWhile (p := (! isBlank ·)) (l := arguments)
      rw [show arguments.takeWhile (! isBlank ·) = [] from hnil, List.nil_append,
        show arguments.dropWhile (! isBlank ·) = c :: t from hmore] at hsplit
      have hhead := List.head?_dropWhile_not isBlank s
      rw [show s.dropWhile isBlank = c :: t from hsplit.symm] at hhead
      cases hblank.symm.trans hhead
    have hrest : ∀ d ∈ t, isLineEnd d = false := fun d hd =>
      hmem d ((List.dropWhile_sublist _).mem (hmore ▸ List.mem_cons_of_mem c hd))
    rw [scan_next (hword.leave first c hne hblank), scan_value rfl rfl hrest,
      if_neg (List.cons_ne_nil c t), List.dropWhile_cons, hblank]
    rfl

/-- The name of a command has been read. -/
def named (x : ConfigReader σ) (name : Bytes) : ConfigReader σ :=
  { x with parseState := .command, commandString := name }

variable (exec configName) in
/-- The word at the beginning of a line. -/
lemma scan_command (hstate : x.parseState = .newline) (hcommand : x.commandString = [])
    {line : Bytes} (hword : line.takeWhile isAlpha ≠ []) :
    scan (turn exec configName) x line =
      scan (turn exec configName) (x.named ((line.takeWhile isAlpha).map toLower))
        (line.dropWhile isAlpha) := by
  have htake : ∀ (name : Bytes) (d : Byte), isAlpha d = true →
      turn exec configName (x.named name) d = .next (x.named (name ++ [toLower d])) := by
    intro name d hd
    have hblank : isBlank d = false := by
      cases hblank : isBlank d with
      | false => rfl
      | true => cases (not_isAlpha_of_isBlank hblank).symm.trans hd
    simp only [turn, named, hblank, hd, Bool.false_eq_true, if_false, Bool.not_true]
  have hfold := scan_fold x.named (fun name d => name ++ [toLower d]) htake
    (w := (line.takeWhile isAlpha).tail)
    (fun d hd => List.mem_takeWhile_imp (List.mem_of_mem_tail hd))
  obtain ⟨c, t, ht⟩ := List.exists_cons_of_ne_nil hword
  have halpha : isAlpha c = true :=
    List.mem_takeWhile_imp (p := isAlpha) (l := line) (by rw [ht]; exact List.mem_cons_self)
  have hc : c ≠ 35 := by
    rintro rfl
    exact absurd halpha (by decide)
  have hfirst : turn exec configName x c = .next (x.named [toLower c]) := by
    simp only [turn, named, hstate, hc, halpha, hcommand, if_true, if_false, List.nil_append]
  have hline : line = c :: (t ++ line.dropWhile isAlpha) := by
    rw [← List.cons_append, ← ht, List.takeWhile_append_dropWhile]
  rw [ht, List.tail_cons] at hfold
  rw [ht]
  conv_lhs => rw [hline]
  rw [scan_next hfirst, hfold, foldl_lower]
  rfl

/-- What the end of a line has to do. -/
def Ends (p : Loaded σ × Option ConfigError) : Turn (ConfigReader σ) ConfigError → Prop
  | .next y => y.parseState = .newline ∧ y.commandString = [] ∧ p = (y.loaded, none)
  | .stop consume _ y => consume = true ∧ y.loaded = p.1 ∧ p.2.isSome = true

lemma finish_one (exec : σ → ConfigCall → σ × Option Bytes) (configName : Bytes)
    {command : ConfigCommand} (hvalue : x.valueString ≠ [])
    (h : oneArgument x.commandString x.valueString = some command) :
    x.finishCommand exec configName = command.perform exec x.loaded := by
  rw [oneArgument] at h
  simp only [finishCommand, hvalue, if_false]
  split_ifs at h with hpath hauth hrestrict
  · obtain rfl := Option.some.inj h
    rw [if_pos hpath]
    rfl
  · obtain rfl := Option.some.inj h
    rw [if_neg hpath, if_pos hauth]
    rfl
  · obtain rfl := Option.some.inj h
    rw [if_neg hpath, if_neg hauth, if_pos hrestrict, ConfigCommand.perform]
    cases x.loaded.hasAuth <;> rfl

/-- A command with two arguments; an option that is no pair is refused. -/
lemma finish_two (exec : σ → ConfigCall → σ × Option Bytes) (configName : Bytes) {first : Bytes}
    (hvalue : x.valueString ≠ [])
    (hname : x.commandString ∈ [ascii "user", ascii "service", ascii "option"])
    (hfirst : first = if x.commandString = ascii "user" then x.usernameString
      else x.resourceString) :
    x.finishCommand exec configName =
      match twoArguments x.commandString first x.valueString with
      | some command => command.perform exec x.loaded
      | none => (x.loaded, some (.configParsing configName)) := by
  have hdistinct : ascii "user" ≠ ascii "path" ∧ ascii "user" ≠ ascii "auth" ∧
      ascii "user" ≠ ascii "restrict" ∧ ascii "service" ≠ ascii "path" ∧
      ascii "service" ≠ ascii "auth" ∧ ascii "service" ≠ ascii "restrict" ∧
      ascii "service" ≠ ascii "user" ∧ ascii "option" ≠ ascii "path" ∧
      ascii "option" ≠ ascii "auth" ∧ ascii "option" ≠ ascii "restrict" ∧
      ascii "option" ≠ ascii "user" ∧ ascii "option" ≠ ascii "service" := by
    decide +kernel
  subst hfirst
  simp only [List.mem_cons, List.not_mem_nil, or_false] at hname
  rcases hname with hname | hname | hname
  · simp only [finishCommand, twoArguments, hvalue, hname, hdistinct, if_true, if_false,
      ConfigCommand.perform]
    cases x.loaded.hasAuth <;> rfl
  · simp only [finishCommand, twoArguments, hvalue, hname, hdistinct, if_true, if_false,
      ConfigCommand.perform]
  · by_cases hpair : 61 ∈ x.valueString
    · simp only [finishCommand, twoArguments, hvalue, hname, hdistinct, hpair, if_true, if_false,
        and_self, ConfigCommand.perform]
    · simp only [finishCommand, twoArguments, hvalue, hname, hdistinct, hpair, if_true, if_false,
        and_false]

lemma ends_value (hstate : x.parseState = .value) {e : Byte} (he : isLineEnd e = true)
    {p : Loaded σ × Option ConfigError} (hloaded : (x.finishCommand exec configName).1 = p.1)
    (hthrown : (x.finishCommand exec configName).2.isSome = p.2.isSome) :
    Ends p (turn exec configName x e) := by
  simp only [turn, hstate, he, if_true]
  cases hfinish : x.finishCommand exec configName with
  | mk s thrown =>
    rw [hfinish] at hloaded hthrown
    cases thrown with
    | none =>
      refine ⟨rfl, rfl, Prod.ext hloaded.symm ?_⟩
      exact Option.isNone_iff_eq_none.1 (by simpa using hthrown.symm)
    | some error => exact ⟨rfl, hloaded, hthrown.symm⟩

/-- What the loop does with a line that is not ended: it makes no call, and either it waits for the
end of the line, or the line is wrong up to the name of its command. -/
inductive LineRead (exec : σ → ConfigCall → σ × Option Bytes) (configName : Bytes)
    (x : ConfigReader σ) (line : Bytes) : Prop where
  | waits {y : ConfigReader σ} (hscan : scan (turn exec configName) x line = ⟨none, [], y⟩)
      (hloaded : y.loaded = x.loaded)
      (hends : ∀ e, isLineEnd e = true →
        Ends (performLine exec configName x.loaded line) (turn exec configName y e))
      (hnothing : beginsCommand line = false →
        performLine exec configName x.loaded line = (x.loaded, none))
  | refused {error : ConfigError} {rest : Bytes} {y : ConfigReader σ}
      (hscan : scan (turn exec configName) x line = ⟨some error, rest, y⟩)
      (hloaded : y.loaded = x.loaded) (hbegins : beginsCommand line = false)
      (hperform : performLine exec configName x.loaded line =
        (x.loaded, some (.configParsing configName)))

variable {line : Bytes}

lemma lineRead_nil (hstate : x.parseState = .newline) (hcommand : x.commandString = []) :
    LineRead exec configName x [] := by
  refine .waits rfl rfl (fun e he => ?_) fun _ => rfl
  have hhash : e ≠ 35 := by
    rintro rfl
    exact absurd he (by decide)
  simp only [turn, hstate, hhash, not_isAlpha_of_isLineEnd he, he, if_true, if_false,
    Bool.false_eq_true]
  exact ⟨hstate, hcommand, rfl⟩

lemma lineRead_comment (hstate : x.parseState = .newline) (hcommand : x.commandString = [])
    (hline : ∀ c ∈ line, isLineEnd c = false) : LineRead exec configName x (35 :: line) := by
  have hfirst : turn exec configName x 35 = .next { x with parseState := .comment } := by
    simp only [turn, hstate, if_true]
  have hskip : ∀ (_ : Unit) (d : Byte), isLineEnd d = false →
      turn exec configName { x with parseState := .comment } d =
        .next { x with parseState := .comment } := by
    intro _ d hd
    simp only [turn, hd, Bool.false_eq_true, if_false]
  have hfold := scan_fold (fun _ : Unit => { x with parseState := .comment }) (fun u _ => u)
    hskip hline () []
  rw [List.append_nil, scan_nil] at hfold
  refine .waits ((scan_next hfirst line).trans hfold) rfl (fun e he => ?_) fun _ => rfl
  simp only [turn, he, if_true]
  exact ⟨rfl, hcommand, rfl⟩

/-- A line that is no command is malformed, if it is not blank and no comment. -/
lemma performLine_of_none {c : Byte} (hhash : c ≠ 35) (h : readCommand (c :: line) = none) :
    performLine exec configName x.loaded (c :: line) =
      (x.loaded, some (.configParsing configName)) := by
  rw [performLine, readLine, if_neg hhash, h]
  rfl

lemma performLine_of_some {c : Byte} {command : ConfigCommand} (hhash : c ≠ 35)
    (h : readCommand (c :: line) = some command) :
    performLine exec configName x.loaded (c :: line) = command.perform exec x.loaded := by
  rw [performLine, readLine, if_neg hhash, h]
  rfl

lemma readCommand_eq_none (h : beginsCommand line = false) : readCommand line = none := by
  cases hread : readCommand line with
  | none => rfl
  | some command => cases h.symm.trans (beginsCommand_of_readCommand hread)

/-- A line that begins with no letter. -/
lemma lineRead_noWord (hstate : x.parseState = .newline) {c : Byte} (hhash : c ≠ 35)
    (halpha : isAlpha c = false) (hend : isLineEnd c = false) :
    LineRead exec configName x (c :: line) := by
  have hfirst : turn exec configName x c = .stop true (.configParsing configName) x := by
    simp only [turn, hstate, hhash, halpha, hend, Bool.false_eq_true, if_false]
  have hbegins : beginsCommand (c :: line) = false := by
    rw [beginsCommand, List.takeWhile_cons, halpha]
    rfl
  exact .refused (scan_stop hfirst line) rfl hbegins
    (performLine_of_none hhash (readCommand_eq_none hbegins))

/-- A value is missing. -/
lemma finish_nil (hvalue : x.valueString = []) :
    x.finishCommand exec configName = (x.loaded, some (.configParsing configName)) := by
  simp only [finishCommand, hvalue, if_true]

lemma beginsCommand_blank {c : Byte} {t : Bytes} (hword : line.takeWhile isAlpha ≠ [])
    (hrest : line.dropWhile isAlpha = c :: t) (hc : isBlank c = true) :
    beginsCommand line = decide ((line.takeWhile isAlpha).map toLower ∈ commandNames) := by
  rw [beginsCommand, hrest, Bool.eq_iff_iff]
  simp [hword, hc]

/-- A command with one argument, which may be missing. -/
lemma lineRead_one {c d : Byte} {t : Bytes} (hhash : c ≠ 35)
    (hrest : (c :: line).dropWhile isAlpha = d :: t) (hd : isBlank d = true)
    (hbegins : beginsCommand (c :: line) = true)
    (hname : ((c :: line).takeWhile isAlpha).map toLower ∈
      [ascii "path", ascii "auth", ascii "restrict"])
    (ht : ∀ e ∈ t, isLineEnd e = false)
    (hscan : scan (turn exec configName) x (c :: line) =
      scan (turn exec configName)
        { x with
          commandString := ((c :: line).takeWhile isAlpha).map toLower
          parseState := .value
          valueString := [] } t) :
    LineRead exec configName x (c :: line) := by
  have hread := readCommand_blank hrest hd
  rw [scan_value rfl rfl ht] at hscan
  refine .waits hscan rfl (fun e he => ?_) fun hno => by cases hbegins.symm.trans hno
  by_cases harguments : t.dropWhile isBlank = []
  · simp only [harguments, if_true] at hread
    rw [performLine_of_none hhash hread]
    refine ends_value rfl he ?_ ?_
    · rw [finish_nil harguments]
    · rw [finish_nil harguments]
  · obtain ⟨command, hcommand⟩ := Option.isSome_iff_exists.1
      (oneArgument_isSome.2 hname : (oneArgument _ (t.dropWhile isBlank)).isSome = true)
    simp only [harguments, if_false, hcommand] at hread
    have hfinish := finish_one exec configName
      (x := { x with
        commandString := ((c :: line).takeWhile isAlpha).map toLower
        parseState := .value
        valueString := t.dropWhile isBlank }) harguments hcommand
    rw [performLine_of_some hhash hread]
    refine ends_value rfl he ?_ ?_
    · rw [hfinish]
    · rw [hfinish]

/-- A command with two arguments, some of which may be missing. -/
lemma lineRead_two {c d : Byte} {t : Bytes} (hhash : c ≠ 35)
    (hrest : (c :: line).dropWhile isAlpha = d :: t) (hd : isBlank d = true)
    (hbegins : beginsCommand (c :: line) = true)
    (hname : ((c :: line).takeWhile isAlpha).map toLower ∈
      [ascii "user", ascii "service", ascii "option"])
    (ht : ∀ e ∈ t, isLineEnd e = false) {emb : Bytes → ConfigReader σ}
    (hword : ReadsWord exec configName emb)
    (hloaded : ∀ w, (emb w).loaded = x.loaded)
    (hcommand : ∀ w, (emb w).commandString = ((c :: line).takeWhile isAlpha).map toLower)
    (hfirst : ∀ w, w = if (emb w).commandString = ascii "user" then (emb w).usernameString
      else (emb w).resourceString)
    (hscan : scan (turn exec configName) x (c :: line) = scan (turn exec configName) (emb []) t) :
    LineRead exec configName x (c :: line) := by
  have hread := readCommand_blank hrest hd
  have hone : oneArgument (((c :: line).takeWhile isAlpha).map toLower) (t.dropWhile isBlank) =
      none := by
    rw [← Option.not_isSome_iff_eq_none, oneArgument_isSome]
    exact two_disjoint_one _ hname
  rw [scan_word hword ht] at hscan
  simp only [hone] at hread
  by_cases hmore : (t.dropWhile isBlank).dropWhile (! isBlank ·) = []
  · -- the line ends before the value
    rw [if_pos hmore] at hscan
    have hnone : readCommand (c :: line) = none := by
      simp only [hmore, List.dropWhile_nil, if_true, ite_self] at hread
      exact hread
    refine .waits hscan (hloaded _) (fun e he => ?_) fun hno => by cases hbegins.symm.trans hno
    obtain ⟨error, hturn⟩ := hword.stop _ e he
    rw [performLine_of_none hhash hnone, hturn]
    exact ⟨rfl, hloaded _, rfl⟩
  · rw [if_neg hmore] at hscan
    refine .waits hscan (hloaded _) (fun e he => ?_) fun hno => by cases hbegins.symm.trans hno
    have harguments : t.dropWhile isBlank ≠ [] := by
      intro hnil
      rw [hnil] at hmore
      exact hmore rfl
    simp only [harguments, if_false] at hread
    by_cases hvalue : ((t.dropWhile isBlank).dropWhile (! isBlank ·)).dropWhile isBlank = []
    · simp only [hvalue, if_true] at hread
      rw [performLine_of_none hhash hread]
      refine ends_value rfl he ?_ ?_
      · rw [finish_nil hvalue]
        exact hloaded _
      · rw [finish_nil hvalue]
    · simp only [hvalue, if_false] at hread
      have hfinish := finish_two exec configName
        (x := { emb ((t.dropWhile isBlank).takeWhile (! isBlank ·)) with
          parseState := .value
          valueString := ((t.dropWhile isBlank).dropWhile (! isBlank ·)).dropWhile isBlank })
        hvalue (by rw [hcommand]; exact hname) (hfirst _)
      rw [hcommand, hloaded] at hfinish
      cases htwo : twoArguments (((c :: line).takeWhile isAlpha).map toLower)
          ((t.dropWhile isBlank).takeWhile (! isBlank ·))
          (((t.dropWhile isBlank).dropWhile (! isBlank ·)).dropWhile isBlank) with
      | none =>
        rw [htwo] at hread hfinish
        rw [performLine_of_none hhash hread]
        refine ends_value rfl he ?_ ?_
        · rw [hfinish]
        · rw [hfinish]
      | some command =>
        rw [htwo] at hread hfinish
        rw [performLine_of_some hhash hread]
        refine ends_value rfl he ?_ ?_
        · rw [hfinish]
        · rw [hfinish]

/-! The character behind the name of a command. -/

/-- Neither a blank nor a letter may follow a name. -/
lemma turn_named_of_not_isBlank (name : Bytes) {d : Byte} (hblank : isBlank d = false)
    (halpha : isAlpha d = false) :
    turn exec configName (x.named name) d =
      .stop true (.configParsing configName) (x.named name) := by
  simp only [turn, named, hblank, halpha, Bool.not_false, if_true, Bool.false_eq_true, if_false]

lemma turn_named_one {name : Bytes} {d : Byte} (hblank : isBlank d = true)
    (hname : name ∈ [ascii "path", ascii "auth", ascii "restrict"]) :
    turn exec configName (x.named name) d =
      .next { x with parseState := .value, commandString := name, valueString := [] } := by
  simp only [List.mem_cons, List.not_mem_nil, or_false] at hname
  simp only [turn, named, hblank, hname, if_true]

lemma turn_named_user {name : Bytes} {d : Byte} (hblank : isBlank d = true)
    (hname : name = ascii "user") :
    turn exec configName (x.named name) d =
      .next { x.named name with parseState := .username, usernameString := [] } := by
  have hnot : ascii "user" ∉ [ascii "path", ascii "auth", ascii "restrict", ascii "service",
      ascii "option"] := by
    decide +kernel
  rw [← hname] at hnot
  simp only [List.mem_cons, List.not_mem_nil, or_false, not_or] at hnot
  simp only [turn, named, hblank, hnot, or_self, if_true, if_false]
  exact if_pos hname

lemma turn_named_resource {name : Bytes} {d : Byte} (hblank : isBlank d = true)
    (hname : name ∈ [ascii "user", ascii "service", ascii "option"])
    (huser : name ≠ ascii "user") :
    turn exec configName (x.named name) d =
      .next { x.named name with parseState := .resource, resourceString := [] } := by
  have hnot := two_disjoint_one _ hname
  simp only [List.mem_cons, List.not_mem_nil, or_false, not_or] at hnot hname
  have hresource := hname.resolve_left huser
  simp only [turn, named, hblank, hnot, hresource, or_self, if_true, if_false]

lemma turn_named_unknown {name : Bytes} {d : Byte} (hblank : isBlank d = true)
    (hname : name ∉ commandNames) :
    turn exec configName (x.named name) d =
      .stop true (.configParsing configName) (x.named name) := by
  simp only [commandNames, List.mem_cons, List.not_mem_nil, or_false, not_or] at hname
  simp only [turn, named, hblank, hname, if_true, if_false, or_self]

/-- A line that begins with a word. -/
lemma lineRead_word (hstate : x.parseState = .newline) (hcommand : x.commandString = []) {c : Byte}
    (halpha : isAlpha c = true) (hline : ∀ d ∈ c :: line, isLineEnd d = false) :
    LineRead exec configName x (c :: line) := by
  have hhash : c ≠ 35 := by
    rintro rfl
    exact absurd halpha (by decide)
  have hword : (c :: line).takeWhile isAlpha ≠ [] := by
    rw [List.takeWhile_cons, halpha]
    exact List.cons_ne_nil _ _
  have hscan := scan_command exec configName hstate hcommand hword
  cases hrest : (c :: line).dropWhile isAlpha with
  | nil =>
    -- the line ends with the word
    have hbegins : beginsCommand (c :: line) = true := by
      rw [beginsCommand, hrest]
      simp [hword]
    have hnone : readCommand (c :: line) = none := by
      simp [readCommand, hrest]
    rw [hrest, scan_nil] at hscan
    refine .waits hscan rfl (fun e he => ?_) fun hno => by cases hbegins.symm.trans hno
    rw [performLine_of_none hhash hnone, turn_named_of_not_isBlank _ (not_isBlank_of_isLineEnd he)
      (not_isAlpha_of_isLineEnd he)]
    exact ⟨rfl, rfl, rfl⟩
  | cons d t =>
    rw [hrest] at hscan
    have hd : isAlpha d = false := by
      have hhead := List.head?_dropWhile_not isAlpha (c :: line)
      rwa [hrest] at hhead
    have ht : ∀ e ∈ t, isLineEnd e = false := fun e he =>
      hline e ((List.dropWhile_sublist isAlpha).mem (hrest ▸ List.mem_cons_of_mem d he))
    cases hblank : isBlank d with
    | false =>
      have hbegins : beginsCommand (c :: line) = false := by
        rw [beginsCommand, hrest]
        simp [hblank]
      exact .refused (hscan.trans (scan_stop (turn_named_of_not_isBlank _ hblank hd) t)) rfl hbegins
        (performLine_of_none hhash (readCommand_eq_none hbegins))
    | true =>
      have hbegins := beginsCommand_blank hword hrest hblank
      by_cases hname : ((c :: line).takeWhile isAlpha).map toLower ∈ commandNames
      · rw [decide_eq_true hname] at hbegins
        rcases List.mem_append.1 (show _ ∈ [ascii "path", ascii "auth", ascii "restrict"] ++
          [ascii "user", ascii "service", ascii "option"] from hname) with hone | htwo
        · exact lineRead_one hhash hrest hblank hbegins hone ht
            (hscan.trans (scan_next (turn_named_one hblank hone) t))
        · by_cases huser : ((c :: line).takeWhile isAlpha).map toLower = ascii "user"
          · exact lineRead_two hhash hrest hblank hbegins htwo ht (readsWord_username (x.named _))
              (fun _ => rfl) (fun _ => rfl) (fun _ => (if_pos huser).symm)
              (hscan.trans (scan_next (turn_named_user hblank huser) t))
          · exact lineRead_two hhash hrest hblank hbegins htwo ht (readsWord_resource (x.named _))
              (fun _ => rfl) (fun _ => rfl) (fun _ => (if_neg huser).symm)
              (hscan.trans (scan_next (turn_named_resource hblank htwo huser) t))
      · rw [decide_eq_false hname] at hbegins
        exact .refused (hscan.trans (scan_stop (turn_named_unknown hblank hname) t)) rfl hbegins
          (performLine_of_none hhash (readCommand_eq_none hbegins))

variable (exec configName) in
/-- A line that is not ended. -/
lemma lineRead (hstate : x.parseState = .newline) (hcommand : x.commandString = [])
    (hline : ∀ c ∈ line, isLineEnd c = false) : LineRead exec configName x line := by
  cases line with
  | nil => exact lineRead_nil hstate hcommand
  | cons c line =>
    by_cases hhash : c = 35
    · subst hhash
      exact lineRead_comment hstate hcommand fun d hd => hline d (List.mem_cons_of_mem _ hd)
    · cases halpha : isAlpha c with
      | true => exact lineRead_word hstate hcommand halpha hline
      | false => exact lineRead_noWord hstate hhash halpha (hline c List.mem_cons_self)

end ConfigReader

/-! ### Whole texts -/

/-- A command makes one call, or throws without one. -/
lemma ConfigCommand.calls_perform (s : Loaded σ) (command : ConfigCommand) :
    (∃ c, (∀ auth, c ≠ .setAuthentication auth) ∧
      (command.perform exec s).1.calls = s.calls ++ [c]) ∨
    (command.perform exec s).1.calls = s.calls ∧ (command.perform exec s).2.isSome = true := by
  cases command with
  | path dir => exact .inl ⟨_, fun _ => ConfigCall.noConfusion, rfl⟩
  | service resource serviceName => exact .inl ⟨_, fun _ => ConfigCall.noConfusion, rfl⟩
  | option resource name value => exact .inl ⟨_, fun _ => ConfigCall.noConfusion, rfl⟩
  | auth authType =>
    rw [perform, Loaded.auth]
    split_ifs with hbasic hcookie
    · exact .inl ⟨.resetAuth false, fun _ => ConfigCall.noConfusion, rfl⟩
    · exact .inl ⟨.resetAuth true, fun _ => ConfigCall.noConfusion, rfl⟩
    · exact .inr ⟨rfl, rfl⟩
  | restrict resource =>
    rw [perform]
    split_ifs with hauth
    · exact .inl ⟨.addRestrict resource, fun _ => ConfigCall.noConfusion, rfl⟩
    · exact .inr ⟨rfl, rfl⟩
  | user username password =>
    rw [perform]
    split_ifs with hauth
    · exact .inl ⟨.addUser username password, fun _ => ConfigCall.noConfusion, rfl⟩
    · exact .inr ⟨rfl, rfl⟩

variable (exec configName) in
/-- A line that begins as a command makes one call, or throws without one. -/
lemma calls_performLine (s : Loaded σ) {line : Bytes} (hline : beginsCommand line = true) :
    (∃ c, (∀ auth, c ≠ .setAuthentication auth) ∧
      (performLine exec configName s line).1.calls = s.calls ++ [c]) ∨
    (performLine exec configName s line).1.calls = s.calls ∧
      (performLine exec configName s line).2.isSome = true := by
  cases hread : readLine line with
  | none =>
    rw [performLine, hread]
    exact .inr ⟨rfl, rfl⟩
  | some command =>
    cases command with
    | some command =>
      rw [performLine, hread]
      exact command.calls_perform s
    | none =>
      -- a line that is blank or a comment begins with no letter
      have hno : beginsCommand line = false := by
        cases readLine_eq_some_iff.1 hread with
        | blank => rfl
        | comment text =>
          rw [beginsCommand, List.takeWhile_cons, show isAlpha 35 = false by decide]
          rfl
      cases hline.symm.trans hno

/-- A text is a line that is not ended, or a line that is ended in front of another text. -/
lemma text_induction {P : Bytes → Prop} (hlast : ∀ line, (∀ c ∈ line, isLineEnd c = false) → P line)
    (hline : ∀ line e text, (∀ c ∈ line, isLineEnd c = false) → isLineEnd e = true → P text →
      P (line ++ e :: text)) (text : Bytes) : P text := by
  have hall : ∀ line, (∀ c ∈ line, isLineEnd c = false) → P (line ++ text) := by
    induction text with
    | nil =>
      intro line h
      rw [List.append_nil]
      exact hlast line h
    | cons c text ih =>
      intro line h
      cases hc : isLineEnd c with
      | true => exact hline line c text h hc (ih [] (fun d hd => by cases hd))
      | false =>
        rw [List.append_cons]
        refine ih (line ++ [c]) fun d hd => ?_
        rcases List.mem_append.1 hd with hd | hd
        · exact h d hd
        · rwa [List.mem_singleton.1 hd]
  exact hall [] fun c hc => by cases hc

lemma sameEffect_of_thrown {s : Loaded σ} {error error' : ConfigError} :
    SameEffect (finishLoading exec (s, some error)) (finishLoading exec (s, some error')) :=
  ⟨rfl, rfl⟩

/-- A last line that begins a command is lost. -/
lemma not_sameEffect_begins {s : Loaded σ} {line : Bytes} (hline : beginsCommand line = true) :
    ¬ SameEffect (finishLoading exec (s, none))
      (finishLoading exec (performLine exec configName s line)) := by
  intro hsame
  have hcalls := congrArg Loaded.calls hsame.1
  have hcode : (finishLoading exec (s, none)).1.calls =
      s.calls ++ [.setAuthentication s.hasAuth] := rfl
  rw [hcode, finishLoading] at hcalls
  cases hperform : performLine exec configName s line with
  | mk s' thrown =>
    have hcases := calls_performLine exec configName s hline
    rw [hperform] at hcases hcalls
    cases thrown with
    | none =>
      rcases hcases with ⟨c, -, hc⟩ | ⟨-, hthrown⟩
      · have hlength := congrArg List.length hcalls
        simp only at hc
        simp [Loaded.call, hc] at hlength
      · cases hthrown
    | some error =>
      rcases hcases with ⟨c, hne, hc⟩ | ⟨hc, -⟩
      · simp only at hc hcalls
        rw [hc] at hcalls
        have hlast := List.append_cancel_left hcalls
        exact hne _ (List.singleton_inj.1 hlast).symm
      · simp only at hc hcalls
        rw [hc] at hcalls
        simp at hcalls

lemma performLines_cons {s : Loaded σ} {line : Bytes} {lines : List Bytes} :
    performLines exec configName s (line :: lines) =
      match (performLine exec configName s line).2 with
      | none => performLines exec configName (performLine exec configName s line).1 lines
      | some _ => performLine exec configName s line := by
  rw [performLines]
  cases performLine exec configName s line with
  | mk s' thrown => cases thrown <;> rfl

lemma performLines_singleton {s : Loaded σ} {line : Bytes} :
    performLines exec configName s [line] = performLine exec configName s line := by
  rw [performLines_cons]
  cases hperform : performLine exec configName s line with
  | mk s' thrown => cases thrown <;> rfl

/-- The loop, from the beginning of a line on. -/
lemma sameEffect_scan (text : Bytes) :
    ∀ x : ConfigReader σ, x.parseState = .newline → x.commandString = [] →
      let y := scan (ConfigReader.turn exec configName) x text
      let lines := text.splitOnP isLineEnd
      SameEffect (finishLoading exec (y.state.loaded, y.result))
          (finishLoading exec (performLines exec configName x.loaded lines)) ↔
        (performLines exec configName x.loaded lines.dropLast).2.isSome = true ∨
          beginsCommand (lines.getLastD []) = false := by
  induction text using text_induction with
  | hlast line hline =>
    intro x hstate hcommand
    simp only [List.splitOnP_eq_singleton hline, List.dropLast_singleton, performLines_singleton,
      List.getLastD_cons, List.getLastD_nil]
    cases ConfigReader.lineRead exec configName hstate hcommand hline with
    | waits hscan hloaded hends hnothing =>
      rw [hscan, hloaded]
      cases hbegins : beginsCommand line with
      | true =>
        exact iff_of_false (not_sameEffect_begins hbegins) (by simp [performLines])
      | false =>
        rw [hnothing hbegins]
        exact iff_of_true ⟨rfl, rfl⟩ (.inr rfl)
    | refused hscan hloaded hbegins hperform =>
      rw [hscan, hloaded, hperform]
      exact iff_of_true sameEffect_of_thrown (.inr hbegins)
  | hline line e text hline he ih =>
    intro x hstate hcommand
    have hne := List.splitOnP_ne_nil isLineEnd text
    simp only [List.splitOnP_append_cons_of_forall_mem hline e he,
      List.dropLast_cons_of_ne_nil hne, performLines_cons, scan_append]
    have hlast : (line :: text.splitOnP isLineEnd).getLastD [] =
        (text.splitOnP isLineEnd).getLastD [] := by
      obtain ⟨l, ls, hls⟩ := List.exists_cons_of_ne_nil hne
      rw [hls]
      rfl
    rw [hlast]
    cases ConfigReader.lineRead exec configName hstate hcommand hline with
    | refused hscan hloaded hbegins hperform =>
      rw [hscan, hperform, Scanned.resume_some rfl, hloaded]
      exact iff_of_true sameEffect_of_thrown (.inl rfl)
    | waits hscan hloaded hends hnothing =>
      rw [hscan, Scanned.resume_none rfl]
      have hend := hends e he
      cases hturn : ConfigReader.turn exec configName _ e with
      | next z =>
        rw [hturn] at hend
        obtain ⟨hzstate, hzcommand, hperform⟩ := hend
        rw [scan_next hturn, hperform]
        exact ih z hzstate hzcommand
      | stop consume error z =>
        rw [hturn] at hend
        obtain ⟨rfl, hzloaded, hthrown⟩ := hend
        rw [scan_stop hturn, hzloaded]
        cases hperform : performLine exec configName x.loaded line with
        | mk s thrown =>
          obtain ⟨error', rfl⟩ : ∃ error', thrown = some error' := by
            rw [hperform] at hthrown
            exact Option.isSome_iff_exists.1 hthrown
          exact iff_of_true sameEffect_of_thrown (.inl rfl)

end Scan

/-- A configuration does what its text says if and only if the line behind the last line end does
not begin as a command, unless a line before it is malformed or throws. -/
theorem takesEffect_iff {σ : Type*} (exec : σ → ConfigCall → σ × Option Bytes)
    (configName : Bytes) (server : σ) (text : Bytes) :
    TakesEffect exec configName server text ↔
      (performLines exec configName { server := server }
        (text.splitOnP isLineEnd).dropLast).2.isSome = true ∨
      beginsCommand ((text.splitOnP isLineEnd).getLastD []) = false :=
  sameEffect_scan text { loaded := { server := server } } rfl rfl

/-- A resource is not restricted. -/
theorem not_takesEffect :
    ¬ TakesEffect (fun (s : Unit) _ => (s, none)) [99] ()
      (ascii "auth basic\n" ++ ascii "restrict /a") := by
  have hlost : ¬ ((performLines (fun (s : Unit) _ => (s, none)) [99] { server := () }
      ((ascii "auth basic\n" ++ ascii "restrict /a").splitOnP isLineEnd).dropLast).2.isSome = true ∨
      beginsCommand (((ascii "auth basic\n" ++ ascii "restrict /a").splitOnP isLineEnd).getLastD [])
        = false) := by
    decide +kernel
  exact mt (sameEffect_scan _ { loaded := { server := () } } rfl rfl).1 hlost

end PionCore.Net.WebServer
