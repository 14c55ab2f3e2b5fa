/-
# Arguments of a script

`ScriptReactor::parseArguments` splits a command into arguments, which may be quoted.  A quote of
the other kind at the beginning of a quoted argument is taken for the quote of the argument, because
the text in front of it is empty.
-/
import PionCore.Lib.Ascii

namespace PionCore.Platform

open PionCore.Lib

/-- The two kinds of quotes. -/
inductive QuoteKind where
  | single
  | double
deriving DecidableEq

namespace QuoteKind

def char : QuoteKind → Byte
  | single => 39
  | double => 34

def other : QuoteKind → QuoteKind
  | single => double
  | double => single

/-- An argument in quotes. -/
def enclose (q : QuoteKind) (arg : Bytes) : Bytes := q.char :: (arg ++ [q.char])

/-- Quoted arguments, with blanks between them. -/
def command (q : QuoteKind) : List Bytes → Bytes
  | [] => []
  | arg :: args => q.enclose arg ++ args.flatMap fun a => 32 :: q.enclose a

end QuoteKind

/-- The local variables of `parseArguments`, with `m_args`. -/
structure ArgumentParse where
  args : List Bytes := []
  arg : Bytes := []
  nextDelimiter : Byte := 32
deriving DecidableEq

namespace ArgumentParse

def append (p : ArgumentParse) (c : Byte) : ArgumentParse := { p with arg := p.arg ++ [c] }

/-- The argument is finished. -/
def push (p : ArgumentParse) : ArgumentParse :=
  { args := p.args ++ [p.arg] }

/-- A character that is not escaped. -/
def parseChar (p : ArgumentParse) (c : Byte) : ArgumentParse :=
  if c = 32 then
    if p.nextDelimiter = 32 then
      if p.arg ≠ [] then p.push else p
    else p.append c
  else if c = 39 ∨ c = 34 then
    if p.nextDelimiter = c then p.push
    else if p.arg = [] then { p with nextDelimiter := c }
    else p.append c
  else p.append c

/-- The loop over the command. -/
def parse (p : ArgumentParse) : Bytes → ArgumentParse
  | [] => p
  | c :: s =>
    match s with
    | [] => p.parseChar c
    | d :: s =>
      if c = 92 ∧ (d = 32 ∨ d = 34 ∨ d = 39) then parse (p.append d) s
      else parse (p.parseChar c) (d :: s)

/-- `parseArguments`, unless it throws. -/
def parseArguments (command : Bytes) : Option (List Bytes) :=
  let p := parse {} command
  let args := if p.arg ≠ [] then p.args ++ [p.arg] else p.args
  if args = [] then none else some args

variable {p : ArgumentParse} {q : QuoteKind} {args : List Bytes} {arg s w : Bytes} {c : Byte}

/-! ### Commands without a backslash -/

lemma parse_eq (h : 92 ∉ s) (p : ArgumentParse) : p.parse s = s.foldl parseChar p := by
  induction s generalizing p with
  | nil => rfl
  | cons c s ih =>
    obtain ⟨hc, hs⟩ := not_or.1 (mt List.mem_cons.2 h)
    cases s with
    | nil => rfl
    | cons d s =>
      rw [parse, if_neg fun hescape => hc hescape.1.symm, ih hs]
      rfl

/-- The text does not begin with a quote. -/
def Unquoted (s : Bytes) : Prop := ∀ q : QuoteKind, s.head? ≠ some q.char

/-- No argument begins with a quote, nor does the current one. -/
def Clean (p : ArgumentParse) : Prop := (∀ arg ∈ p.args, Unquoted arg) ∧ Unquoted p.arg

lemma unquoted_nil : Unquoted [] := fun _ h => by cases h

lemma Unquoted.append_of_ne_nil (h : Unquoted s) (hne : s ≠ []) (w : Bytes) :
    Unquoted (s ++ w) := by
  intro q
  rw [List.head?_append_of_ne_nil _ hne]
  exact h q

lemma Clean.push (h : p.Clean) : p.push.Clean := by
  refine ⟨fun arg hmem => ?_, unquoted_nil⟩
  rcases List.mem_append.1 hmem with hmem | hmem
  · exact h.1 arg hmem
  · rw [List.mem_singleton.1 hmem]
    exact h.2

/-- A quote is appended only behind something else. -/
lemma Clean.append (h : p.Clean) (hc : (∀ q : QuoteKind, c ≠ q.char) ∨ p.arg ≠ []) :
    (p.append c).Clean := by
  refine ⟨h.1, ?_⟩
  by_cases hne : p.arg = []
  · have hchar := hc.resolve_right fun h => h hne
    intro q
    rw [ArgumentParse.append, hne]
    exact fun heq => hchar q (Option.some.inj heq)
  · exact h.2.append_of_ne_nil hne [c]

lemma Clean.parseChar (h : p.Clean) (c : Byte) : (p.parseChar c).Clean := by
  rw [ArgumentParse.parseChar]
  split_ifs with hblank hdelimiter hne hquote hend hempty
  · exact h.push
  · exact h
  · refine h.append (Or.inl fun q => ?_)
    subst hblank
    cases q <;> decide
  · exact h.push
  · exact ⟨h.1, h.2⟩
  · exact h.append (Or.inr hempty)
  · refine h.append (Or.inl fun q => ?_)
    rintro rfl
    cases q
    · exact hquote (Or.inl rfl)
    · exact hquote (Or.inr rfl)

lemma Clean.foldl (h : p.Clean) (s : Bytes) : (s.foldl ArgumentParse.parseChar p).Clean := by
  induction s generalizing p with
  | nil => exact h
  | cons c s ih => exact ih (h.parseChar c)

/-- No argument that is parsed begins with a quote. -/
lemma unquoted_of_parseArguments (h : 92 ∉ s) (hargs : parseArguments s = some args) :
    ∀ arg ∈ args, Unquoted arg := by
  have hclean : (parse {} s).Clean := by
    rw [parse_eq h]
    exact Clean.foldl ⟨fun _ hmem => absurd hmem List.not_mem_nil, unquoted_nil⟩ s
  rw [parseArguments] at hargs
  split_ifs at hargs with harg
  · obtain rfl := Option.some.inj hargs
    exact hclean.push.1
  · obtain rfl := Option.some.inj hargs
    exact hclean.1

/-! ### Quoted arguments -/

lemma parseChar_quote (args : List Bytes) :
    (⟨args, [], 32⟩ : ArgumentParse).parseChar q.char = ⟨args, [], q.char⟩ := by
  cases q <;> rfl

lemma parseChar_end (args : List Bytes) (arg : Bytes) :
    (⟨args, arg, q.char⟩ : ArgumentParse).parseChar q.char = ⟨args ++ [arg], [], 32⟩ := by
  cases q <;> rfl

/-- In quotes, all characters but the quote are appended, if a quote of the other kind is not the
first one. -/
lemma parseChar_inside (hq : c ≠ q.char) (hother : c = q.other.char → w ≠ []) (args : List Bytes) :
    (⟨args, w, q.char⟩ : ArgumentParse).parseChar c = ⟨args, w ++ [c], q.char⟩ := by
  have hdelimiter : q.char ≠ 32 := by cases q <;> decide
  rw [parseChar]
  split_ifs with hblank hquote hend hempty
  · rfl
  · exact absurd hend hq.symm
  · -- the first character is a quote of the other kind
    have hchar : c = q.other.char := by
      cases q <;> rcases hquote with rfl | rfl <;> first | rfl | exact absurd rfl hq
    exact absurd hempty (hother hchar)
  · rfl
  · rfl

lemma foldl_inside (hq : q.char ∉ arg) (hother : w = [] → arg.head? ≠ some q.other.char)
    (args : List Bytes) :
    arg.foldl parseChar ⟨args, w, q.char⟩ = ⟨args, w ++ arg, q.char⟩ := by
  induction arg generalizing w with
  | nil => rw [List.append_nil]; rfl
  | cons c arg ih =>
    obtain ⟨hc, harg⟩ := not_or.1 (mt List.mem_cons.2 hq)
    have hfirst : c = q.other.char → w ≠ [] := fun heq hw => hother hw (congrArg some heq)
    rw [List.foldl_cons, parseChar_inside (Ne.symm hc) hfirst, ih harg fun h => by simp at h,
      List.append_assoc]
    rfl

lemma foldl_enclose (hq : q.char ∉ arg) (hother : arg.head? ≠ some q.other.char)
    (args : List Bytes) :
    (q.enclose arg).foldl parseChar ⟨args, [], 32⟩ = ⟨args ++ [arg], [], 32⟩ := by
  rw [QuoteKind.enclose, List.foldl_cons, parseChar_quote, List.foldl_append,
    foldl_inside hq fun _ => hother, List.nil_append]
  exact parseChar_end args arg

/-- What is between two arguments is skipped. -/
lemma foldl_others (hargs : ∀ arg ∈ args, q.char ∉ arg ∧ arg.head? ≠ some q.other.char)
    (before : List Bytes) :
    (args.flatMap fun arg => 32 :: q.enclose arg).foldl parseChar ⟨before, [], 32⟩ =
      ⟨before ++ args, [], 32⟩ := by
  induction args generalizing before with
  | nil => rw [List.append_nil]; rfl
  | cons arg args ih =>
    obtain ⟨⟨hq, hother⟩, hargs⟩ := List.forall_mem_cons.1 hargs
    have hskip : (⟨before, [], 32⟩ : ArgumentParse).parseChar 32 = ⟨before, [], 32⟩ := rfl
    rw [List.flatMap_cons, List.cons_append, List.foldl_cons, hskip, List.foldl_append,
      foldl_enclose hq hother, ih hargs, List.append_assoc]
    rfl

lemma foldl_command (hargs : ∀ arg ∈ args, q.char ∉ arg ∧ arg.head? ≠ some q.other.char) :
    (q.command args).foldl parseChar {} = ⟨args, [], 32⟩ := by
  cases args with
  | nil => rfl
  | cons arg args =>
    obtain ⟨⟨hq, hother⟩, hargs⟩ := List.forall_mem_cons.1 hargs
    rw [QuoteKind.command, List.foldl_append]
    have hfirst : (q.enclose arg).foldl parseChar {} = ⟨[arg], [], 32⟩ := foldl_enclose hq hother []
    rw [hfirst]
    exact foldl_others hargs [arg]

lemma notMem_enclose (h : 92 ∉ arg) : 92 ∉ q.enclose arg := by
  have hchar : (92 : Byte) ≠ q.char := by cases q <;> decide
  simp [QuoteKind.enclose, h, hchar]

lemma notMem_command (h : ∀ arg ∈ args, 92 ∉ arg) : 92 ∉ q.command args := by
  cases args with
  | nil => exact List.not_mem_nil
  | cons arg args =>
    obtain ⟨harg, hargs⟩ := List.forall_mem_cons.1 h
    rw [QuoteKind.command, List.mem_append, List.mem_flatMap]
    rintro (hmem | ⟨a, ha, hmem⟩)
    · exact notMem_enclose harg hmem
    · rcases List.mem_cons.1 hmem with heq | hmem
      · cases heq
      · exact notMem_enclose (hargs a ha) hmem

/-- Arguments in quotes of one kind are parsed as they are, if and only if none of them begins with
a quote of the other kind. -/
theorem quoted_arguments_iff (q : QuoteKind) {args : List Bytes} (hne : args ≠ [])
    (hargs : ∀ arg ∈ args, 92 ∉ arg ∧ q.char ∉ arg) :
    parseArguments (q.command args) = some args ↔
      ∀ arg ∈ args, arg.head? ≠ some q.other.char := by
  have hslash : 92 ∉ q.command args := notMem_command fun arg hmem => (hargs arg hmem).1
  constructor
  · intro h arg hmem
    exact unquoted_of_parseArguments hslash h arg hmem q.other
  · intro hother
    have hparse : parse {} (q.command args) = ⟨args, [], 32⟩ := by
      rw [parse_eq hslash, foldl_command fun arg hmem => ⟨(hargs arg hmem).2, hother arg hmem⟩]
    rw [parseArguments, hparse]
    dsimp only
    rw [if_neg (not_not_intro rfl), if_neg hne]

/-- Two arguments in double quotes, of which one is empty and the other has a single quote. -/
theorem quoted_arguments_iff_two :
    parseArguments (ascii "\"\" \"it's me\"") = some [[], ascii "it's me"] :=
  (@quoted_arguments_iff .double [[], ascii "it's me"] (by decide) (by decide +kernel)).2
    (by decide +kernel)

/-- A single quote in double quotes gives no argument at all. -/
theorem not_quoted_arguments :
    ¬ ∀ (q : QuoteKind) (args : List Bytes), args ≠ [] →
      (∀ arg ∈ args, 92 ∉ arg ∧ q.char ∉ arg) →
        parseArguments (q.command args) = some args := by
  intro hall
  have h := hall .double [ascii "'"] (by decide) (by decide)
  exact absurd h (by decide)

end ArgumentParse

end PionCore.Platform
