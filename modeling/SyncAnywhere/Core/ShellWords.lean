import SyncAnywhere.Core.CMemory

/-!
# Words of a shell command

A shell cuts a command line into words by blanks and takes quotes away.  The
reader here accepts the lines that are one simple command of literal words: an
expansion, an operator, a comment, a pattern or an open quote is refused.
Reserved words and assignments, which only concern the first word, are not
looked at.
-/

namespace SyncAnywhere.ShellWords

open SyncAnywhere.CMemory

def dquote : Byte := 0x22#8

def squote : Byte := 0x27#8

def backslash : Byte := 0x5c#8

def newline : Byte := 0x0a#8

def blank : Byte := 0x20#8

def isBlank (byte : Byte) : Bool :=
  byte = blank || byte = 0x09#8

/-- The dollar sign and the backquote begin an expansion, in double quotes as
well. -/
def isExpansion (byte : Byte) : Bool :=
  byte = 0x24#8 || byte = 0x60#8

/-- The operators `;`, `&`, `|`, `<`, `>`, `(` and `)`, the end of a line, and the
patterns `*`, `?` and `[`. -/
def isSpecial (byte : Byte) : Bool :=
  isExpansion byte || byte = newline || byte = 0x3b#8 || byte = 0x26#8 ||
    byte = 0x7c#8 || byte = 0x3c#8 || byte = 0x3e#8 || byte = 0x28#8 ||
    byte = 0x29#8 || byte = 0x2a#8 || byte = 0x3f#8 || byte = 0x5b#8

/-- `#` and `~` at the start of a word. -/
def isLeader (byte : Byte) : Bool :=
  byte = 0x23#8 || byte = 0x7e#8

/-- The bytes a backslash escapes in double quotes, besides the newline. -/
def isEscapable (byte : Byte) : Bool :=
  isExpansion byte || byte = dquote || byte = backslash

/-- Where the reader stands; behind a backslash the next byte decides what the
backslash is for. -/
inductive Mode where
  | bare (inWord : Bool)
  | bareEscape (inWord : Bool)
  | single
  | double
  | doubleEscape
  deriving DecidableEq

/-- What a byte is for: itself, an end of words, a quote or backslash that is
taken away, or a part of a continued line. -/
inductive Role where
  | literal
  | separator
  | quoting
  | dropped
  deriving DecidableEq

abbrev Token := Byte × Role

/-- One byte: the tokens whose roles are now known, or nothing where the line is
no simple command. -/
def step : Mode → Byte → Option (Mode × List Token)
  | .bare inWord, byte =>
      if isBlank byte then some (.bare false, [(byte, .separator)])
      else if byte = dquote then some (.double, [(byte, .quoting)])
      else if byte = squote then some (.single, [(byte, .quoting)])
      else if byte = backslash then some (.bareEscape inWord, [])
      else if isSpecial byte || isLeader byte && !inWord then none
      else some (.bare true, [(byte, .literal)])
  | .bareEscape inWord, byte =>
      if byte = newline then
        some (.bare inWord, [(backslash, .dropped), (byte, .dropped)])
      else some (.bare true, [(backslash, .quoting), (byte, .literal)])
  | .single, byte =>
      if byte = squote then some (.bare true, [(byte, .quoting)])
      else some (.single, [(byte, .literal)])
  | .double, byte =>
      if byte = dquote then some (.bare true, [(byte, .quoting)])
      else if isExpansion byte then none
      else if byte = backslash then some (.doubleEscape, [])
      else some (.double, [(byte, .literal)])
  | .doubleEscape, byte =>
      if byte = newline then
        some (.double, [(backslash, .dropped), (byte, .dropped)])
      else if isEscapable byte then
        some (.double, [(backslash, .quoting), (byte, .literal)])
      else some (.double, [(backslash, .literal), (byte, .literal)])

/-- The role of every byte of a line, when the line is one simple command. -/
def classify : Mode → List Byte → Option (List Token)
  | .bare _, [] => some []
  | _, [] => none
  | mode, byte :: rest =>
      (step mode byte).bind fun next =>
        (classify next.1 rest).map (next.2 ++ ·)

/-- The words of a classified line, `word` being the one that has begun. -/
def wordsOf : Option (List Byte) → List Token → List (List Byte)
  | word, [] => word.toList
  | word, (_, .separator) :: tokens => word.toList ++ wordsOf none tokens
  | word, (_, .quoting) :: tokens => wordsOf (some (word.getD [])) tokens
  | word, (_, .dropped) :: tokens => wordsOf word tokens
  | word, (byte, .literal) :: tokens =>
      wordsOf (some (word.getD [] ++ [byte])) tokens

def shellWords (line : List Byte) : Option (List (List Byte)) :=
  (classify (.bare false) line).map (wordsOf none)

example : shellWords ("cp \"a b\" c\\ d".toList.map fun letter =>
    BitVec.ofNat 8 letter.toNat) =
    some [[0x63#8, 0x70#8], [0x61#8, 0x20#8, 0x62#8],
      [0x63#8, 0x20#8, 0x64#8]] := by
  decide

/-! ## What the words leave of the bytes -/

/-- The backslash whose role the next byte decides. -/
def Mode.pending : Mode → List Byte
  | .bareEscape _ => [backslash]
  | .doubleEscape => [backslash]
  | _ => []

def literals (tokens : List Token) : List Byte :=
  (tokens.filter fun token => token.2 = .literal).map Prod.fst

/-- The byte stands for itself wherever it occurs. -/
def Kept (byte : Byte) (tokens : List Token) : Prop :=
  ∀ token ∈ tokens, token.1 = byte → token.2 = .literal

@[simp]
theorem literals_nil : literals [] = [] := rfl

@[simp]
theorem literals_cons (byte : Byte) (role : Role) (tokens : List Token) :
    literals ((byte, role) :: tokens) =
      if role = .literal then byte :: literals tokens
      else literals tokens := by
  cases role <;> rfl

@[simp]
theorem kept_nil (byte : Byte) : Kept byte [] :=
  fun _ htoken => absurd htoken List.not_mem_nil

@[simp]
theorem kept_cons {byte other : Byte} {role : Role} {tokens : List Token} :
    Kept byte ((other, role) :: tokens) ↔
      (other = byte → role = .literal) ∧ Kept byte tokens := by
  simp [Kept]

theorem literals_append (first second : List Token) :
    literals (first ++ second) = literals first ++ literals second := by
  rw [literals, List.filter_append, List.map_append]
  rfl

theorem kept_append {byte : Byte} {first second : List Token} :
    Kept byte (first ++ second) ↔ Kept byte first ∧ Kept byte second := by
  simp only [Kept, List.mem_append, or_imp, forall_and]

theorem flatten_wordsOf (word : Option (List Byte)) (tokens : List Token) :
    (wordsOf word tokens).flatten = word.getD [] ++ literals tokens := by
  induction tokens generalizing word with
  | nil => cases word <;> simp [wordsOf, literals]
  | cons token tokens ih =>
      obtain ⟨byte, role⟩ := token
      cases role with
      | literal => simp [wordsOf, literals, ih]
      | separator => cases word <;> simp [wordsOf, literals, ih]
      | quoting => simp [wordsOf, literals, ih]
      | dropped => simp [wordsOf, literals, ih]

theorem step_bytes {mode next : Mode} {byte : Byte} {tokens : List Token}
    (hstep : step mode byte = some (next, tokens)) :
    mode.pending ++ [byte] = tokens.map Prod.fst ++ next.pending := by
  cases mode with
  | bare inWord => grind [step, Mode.pending]
  | bareEscape inWord => grind [step, Mode.pending]
  | single => grind [step, Mode.pending]
  | double => grind [step, Mode.pending]
  | doubleEscape => grind [step, Mode.pending]

theorem classify_cons (mode : Mode) (byte : Byte) (rest : List Byte) :
    classify mode (byte :: rest) =
      (step mode byte).bind fun next =>
        (classify next.1 rest).map (next.2 ++ ·) := by
  cases mode <;> rfl

theorem classify_cons_eq_some {mode : Mode} {byte : Byte} {rest : List Byte}
    {tokens : List Token}
    (hclassify : classify mode (byte :: rest) = some tokens) :
    ∃ next first later, step mode byte = some (next, first) ∧
      classify next rest = some later ∧ tokens = first ++ later := by
  rw [classify_cons] at hclassify
  obtain ⟨⟨next, first⟩, hstep, hlater⟩ :=
    Option.bind_eq_some_iff.mp hclassify
  obtain ⟨later, hrest, htokens⟩ := Option.map_eq_some_iff.mp hlater
  exact ⟨next, first, later, hstep, hrest, htokens.symm⟩

/-- No byte is lost or made up. -/
theorem classify_bytes {mode : Mode} {line : List Byte}
    {tokens : List Token} (hclassify : classify mode line = some tokens) :
    tokens.map Prod.fst = mode.pending ++ line := by
  induction line generalizing mode tokens with
  | nil =>
      cases mode with
      | bare inWord =>
          cases hclassify
          rfl
      | _ => cases hclassify
  | cons byte rest ih =>
      obtain ⟨next, first, later, hstep, hrest, rfl⟩ :=
        classify_cons_eq_some hclassify
      calc
        (first ++ later).map Prod.fst
            = first.map Prod.fst ++ (next.pending ++ rest) := by
              rw [List.map_append, ih hrest]
        _ = mode.pending ++ [byte] ++ rest := by
              rw [step_bytes hstep, List.append_assoc]
        _ = mode.pending ++ byte :: rest := by simp

/-- A byte that the words have as often as the line is never taken away. -/
theorem kept_of_count {byte : Byte} {tokens : List Token}
    (hcount : (literals tokens).count byte =
      (tokens.map Prod.fst).count byte) : Kept byte tokens := by
  induction tokens with
  | nil => simp [Kept]
  | cons token tokens ih =>
      have hle : (literals tokens).count byte ≤
          (tokens.map Prod.fst).count byte :=
        List.Sublist.count_le byte (List.filter_sublist.map Prod.fst)
      have hrest : Kept byte tokens := by
        apply ih
        by_cases hrole : token.2 = .literal <;>
          by_cases hbyte : token.1 = byte <;>
          simp [literals, hrole, hbyte] at hcount hle ⊢ <;> omega
      intro other hother hbyte
      rcases List.mem_cons.mp hother with rfl | hother
      · by_contra hrole
        simp [literals, hrole, hbyte] at hcount hle
        omega
      · exact hrest other hother hbyte

theorem step_dquote_quoted {mode next : Mode} {byte : Byte}
    {tokens : List Token} (hstep : step mode byte = some (next, tokens))
    (hmode : mode ≠ .single) (hback : Kept backslash tokens)
    (hsquote : Kept squote tokens) :
    next ≠ .single ∧ dquote ∉ literals tokens := by
  cases mode with
  | bare inWord =>
      simp only [step] at hstep
      split_ifs at hstep with _ hquote hsingle
      · cases hstep
        simp
      · cases hstep
        simp
      · cases hstep
        -- The byte that opens single quotes is not kept.
        simp [hsingle] at hsquote
      · cases hstep
        simp
      · cases hstep
        simpa using Ne.symm hquote
  | bareEscape inWord =>
      simp only [step] at hstep
      split_ifs at hstep <;> cases hstep <;> simp at hback
  | single => exact absurd rfl hmode
  | double =>
      simp only [step] at hstep
      split_ifs at hstep with hquote
      · cases hstep
        simp
      · cases hstep
        simp
      · cases hstep
        simpa using Ne.symm hquote
  | doubleEscape =>
      simp only [step] at hstep
      split_ifs at hstep with _ hescapable
      · cases hstep
        simp at hback
      · cases hstep
        simp at hback
      · cases hstep
        have hquote : dquote ≠ byte := by
          rintro rfl
          exact hescapable rfl
        have hslash : dquote ≠ backslash := by
          decide
        simpa using ⟨hslash, hquote⟩

/-- Without a backslash that quotes and without single quotes every double
quote quotes. -/
theorem dquote_notMem_literals {mode : Mode} {line : List Byte}
    {tokens : List Token} (hclassify : classify mode line = some tokens)
    (hmode : mode ≠ .single) (hback : Kept backslash tokens)
    (hsquote : Kept squote tokens) : dquote ∉ literals tokens := by
  induction line generalizing mode tokens with
  | nil =>
      cases mode with
      | bare inWord =>
          cases hclassify
          simp [literals]
      | _ => cases hclassify
  | cons byte rest ih =>
      obtain ⟨next, first, later, hstep, hrest, rfl⟩ :=
        classify_cons_eq_some hclassify
      obtain ⟨hbackFirst, hbackLater⟩ := kept_append.mp hback
      obtain ⟨hsquoteFirst, hsquoteLater⟩ := kept_append.mp hsquote
      obtain ⟨hnext, hfirst⟩ :=
        step_dquote_quoted hstep hmode hbackFirst hsquoteFirst
      have hlater := ih hrest hnext hbackLater hsquoteLater
      rw [literals_append, List.mem_append]
      exact not_or.mpr ⟨hfirst, hlater⟩

/-! ## Texts that double quotes protect -/

/-- In double quotes the text is the word: nothing ends the quotes or begins an
expansion, and no backslash is taken away. -/
def Quotable : List Byte → Prop
  | [] => True
  | byte :: rest =>
      byte ≠ dquote ∧ isExpansion byte = false ∧
        (byte = backslash → ∃ next ∈ rest.head?,
          isEscapable next = false ∧ next ≠ newline) ∧
        Quotable rest

instance Quotable.decide : (text : List Byte) → Decidable (Quotable text)
  | [] => inferInstanceAs (Decidable True)
  | byte :: rest =>
      have := Quotable.decide rest
      inferInstanceAs (Decidable (byte ≠ dquote ∧ isExpansion byte = false ∧
        (byte = backslash → ∃ next ∈ rest.head?,
          isEscapable next = false ∧ next ≠ newline) ∧ Quotable rest))

def literalTokens (text : List Byte) : List Token :=
  text.map fun byte => (byte, .literal)

def quotedTokens (text : List Byte) : List Token :=
  (dquote, .quoting) :: literalTokens text ++ [(dquote, .quoting)]

theorem classify_double_ordinary {byte : Byte} (rest : List Byte)
    (hquote : byte ≠ dquote) (hexpansion : isExpansion byte = false)
    (hback : byte ≠ backslash) :
    classify .double (byte :: rest) =
      (classify .double rest).map ((byte, .literal) :: ·) := by
  simp [classify, step, hquote, hexpansion, hback]

theorem classify_double_escape (rest : List Byte) :
    classify .double (backslash :: rest) = classify .doubleEscape rest := by
  have hstep : step .double backslash = some (.doubleEscape, []) := by
    decide
  rw [classify_cons, hstep, Option.bind_some]
  exact Option.map_id'

/-- Before a byte that needs no escape a backslash is itself, and the byte is
read as it would be without it. -/
theorem classify_double_backslash {next : Byte} (rest : List Byte)
    (hescapable : isEscapable next = false) (hnewline : next ≠ newline) :
    classify .double (backslash :: next :: rest) =
      (classify .double (next :: rest)).map ((backslash, .literal) :: ·) := by
  have hordinary : isExpansion next = false ∧ next ≠ dquote ∧
      next ≠ backslash := by
    simpa [isEscapable, and_assoc] using hescapable
  obtain ⟨hexpansion, hquote, hback⟩ := hordinary
  have hstep : step .doubleEscape next =
      some (.double, [(backslash, .literal), (next, .literal)]) := by
    simp [step, hescapable, hnewline]
  rw [classify_double_ordinary rest hquote hexpansion hback,
    classify_double_escape, classify_cons, hstep, Option.bind_some,
    Option.map_map]
  rfl

theorem ordinary_of_kept {next : Byte} {rest : List Byte}
    {tokens : List Token}
    (hclassify : classify .double (backslash :: next :: rest) = some tokens)
    (hback : Kept backslash tokens) :
    isEscapable next = false ∧ next ≠ newline := by
  rw [classify_double_escape] at hclassify
  obtain ⟨mode, first, later, hstep, -, rfl⟩ :=
    classify_cons_eq_some hclassify
  simp only [step] at hstep
  split_ifs at hstep with hnewline hescapable
  · cases hstep
    simp at hback
  · cases hstep
    simp at hback
  · exact ⟨Bool.eq_false_iff.mpr hescapable, hnewline⟩

theorem classify_double_of_quotable {text : List Byte} (rest : List Byte)
    (htext : Quotable text) :
    classify .double (text ++ dquote :: rest) =
      (classify (.bare true) rest).map
        (literalTokens text ++ (dquote, .quoting) :: ·) := by
  induction text with
  | nil => simp [classify, step, literalTokens]
  | cons byte text ih =>
      obtain ⟨hquote, hexpansion, hback, hrest⟩ := htext
      have hone : classify .double (byte :: (text ++ dquote :: rest)) =
          (classify .double (text ++ dquote :: rest)).map
            ((byte, .literal) :: ·) := by
        by_cases hbyte : byte = backslash
        · subst hbyte
          obtain ⟨next, hnext, hescapable, hnewline⟩ := hback rfl
          obtain ⟨later, rfl⟩ := List.head?_eq_some_iff.mp hnext
          exact classify_double_backslash _ hescapable hnewline
        · exact classify_double_ordinary _ hquote hexpansion hbyte
      rw [List.cons_append, hone, ih hrest, Option.map_map]
      rfl

theorem quotable_of_classify_double {text rest : List Byte}
    {tokens : List Token} (hquote : dquote ∉ text)
    (hclassify : classify .double (text ++ dquote :: rest) = some tokens)
    (hback : Kept backslash tokens) : Quotable text := by
  induction text generalizing tokens with
  | nil => trivial
  | cons byte text ih =>
      obtain ⟨hbyte, htext⟩ := List.ne_and_not_mem_of_not_mem_cons hquote
      have hexpansion : isExpansion byte = false := by
        by_contra htrue
        have hnone : step .double byte = none := by
          simp [step, Ne.symm hbyte, Bool.of_not_eq_false htrue]
        rw [List.cons_append, classify_cons, hnone] at hclassify
        contradiction
      by_cases hslash : byte = backslash
      · subst hslash
        have hnext : ∃ next ∈ text.head?,
            isEscapable next = false ∧ next ≠ newline := by
          cases text with
          | nil =>
              -- The closing quote would be escaped.
              obtain ⟨hescapable, -⟩ := ordinary_of_kept hclassify hback
              exact absurd hescapable (by decide)
          | cons next text =>
              exact ⟨next, rfl, ordinary_of_kept hclassify hback⟩
        obtain ⟨next, hhead, hescapable, hnewline⟩ := hnext
        obtain ⟨later, rfl⟩ := List.head?_eq_some_iff.mp hhead
        rw [List.cons_append, List.cons_append,
          classify_double_backslash _ hescapable hnewline] at hclassify
        obtain ⟨tail, htail, rfl⟩ := Option.map_eq_some_iff.mp hclassify
        refine ⟨Ne.symm hbyte, hexpansion, fun _ => ⟨next, hhead, ?_⟩, ?_⟩
        · exact ⟨hescapable, hnewline⟩
        · exact ih htext htail fun token htoken =>
            hback token (List.mem_cons_of_mem _ htoken)
      · rw [List.cons_append, classify_double_ordinary _ (Ne.symm hbyte)
          hexpansion hslash] at hclassify
        obtain ⟨tail, htail, rfl⟩ := Option.map_eq_some_iff.mp hclassify
        refine ⟨Ne.symm hbyte, hexpansion, fun h => absurd h hslash, ?_⟩
        exact ih htext htail fun token htoken =>
          hback token (List.mem_cons_of_mem _ htoken)

theorem quotable_append {first second : List Byte} {byte : Byte}
    (hescapable : isEscapable byte = false) :
    Quotable (first ++ byte :: second) ↔
      Quotable (first ++ [byte]) ∧ Quotable second := by
  have hordinary : byte ≠ dquote ∧ isExpansion byte = false ∧
      byte ≠ backslash := by
    simp only [isEscapable, Bool.or_eq_false_iff, decide_eq_false_iff_not]
      at hescapable
    exact ⟨hescapable.1.2, hescapable.1.1, hescapable.2⟩
  induction first with
  | nil => simp [Quotable, hordinary]
  | cons head first ih =>
      have hhead : (first ++ byte :: second).head? =
          (first ++ [byte]).head? := by
        cases first <;> rfl
      simp only [List.cons_append, Quotable, ih, hhead, and_assoc]

theorem quotable_of_suffix {text later : List Byte} (htext : Quotable text)
    (hsuffix : later <:+ text) : Quotable later := by
  induction text with
  | nil => rwa [List.suffix_nil.mp hsuffix]
  | cons byte text ih =>
      rcases List.suffix_cons_iff.mp hsuffix with rfl | hsuffix
      · exact htext
      · obtain ⟨-, -, -, hrest⟩ := htext
        exact ih hrest hsuffix

/-! ## Commands with quoted arguments -/

/-- A byte without a meaning of its own wherever it stands. -/
def isOrdinary (byte : Byte) : Bool :=
  !(isBlank byte || byte = dquote || byte = squote || byte = backslash ||
    isSpecial byte || isLeader byte)

def commandLine (command : List Byte) (args : List (List Byte)) : List Byte :=
  command ++ args.flatMap fun arg => blank :: dquote :: arg ++ [dquote]

theorem count_commandLine (command : List Byte) (args : List (List Byte))
    {byte : Byte} (hblank : byte ≠ blank) (hdquote : byte ≠ dquote) :
    (commandLine command args).count byte =
      (command ++ args.flatten).count byte := by
  rw [commandLine, List.count_append, List.count_append]
  congr 1
  induction args with
  | nil => rfl
  | cons arg args ih =>
      simp only [List.flatMap_cons, List.flatten_cons, List.count_append, ih]
      simp [hblank.symm, hdquote.symm]

theorem classify_ordinary {inWord : Bool} {text : List Byte}
    (rest : List Byte) (hne : text ≠ [])
    (hordinary : ∀ byte ∈ text, isOrdinary byte = true) :
    classify (.bare inWord) (text ++ rest) =
      (classify (.bare true) rest).map (literalTokens text ++ ·) := by
  induction text generalizing inWord with
  | nil => exact absurd rfl hne
  | cons byte text ih =>
      have hbyte := hordinary byte List.mem_cons_self
      have htext := fun other hother =>
        hordinary other (List.mem_cons_of_mem byte hother)
      have hstep : step (.bare inWord) byte =
          some (.bare true, [(byte, .literal)]) := by
        simp only [isOrdinary, Bool.not_eq_true', Bool.or_eq_false_iff,
          decide_eq_false_iff_not] at hbyte
        simp [step, hbyte]
      rw [List.cons_append, classify_cons, hstep, Option.bind_some]
      by_cases hlast : text = []
      · subst hlast
        rfl
      · rw [ih hlast htext, Option.map_map]
        rfl

theorem classify_argument (arg rest : List Byte) :
    classify (.bare true) (blank :: dquote :: arg ++ [dquote] ++ rest) =
      (classify .double (arg ++ dquote :: rest)).map
        ((blank, .separator) :: (dquote, .quoting) :: ·) := by
  have hblank : step (.bare true) blank =
      some (.bare false, [(blank, .separator)]) := by
    decide
  have hopen : step (.bare false) dquote =
      some (.double, [(dquote, .quoting)]) := by
    decide
  simp [classify_cons, hblank, hopen, Option.map_map, Function.comp_def]

theorem classify_arguments {args : List (List Byte)}
    (hargs : ∀ arg ∈ args, Quotable arg) :
    classify (.bare true)
        (args.flatMap fun arg => blank :: dquote :: arg ++ [dquote]) =
      some (args.flatMap fun arg =>
        (blank, .separator) :: quotedTokens arg) := by
  induction args with
  | nil => rfl
  | cons arg args ih =>
      rw [List.flatMap_cons, classify_argument,
        classify_double_of_quotable _ (hargs arg List.mem_cons_self),
        ih fun other hother => hargs other (List.mem_cons_of_mem arg hother)]
      simp [quotedTokens]

theorem quotable_of_classify_arguments {args : List (List Byte)}
    {tokens : List Token}
    (hclassify : classify (.bare true)
      (args.flatMap fun arg => blank :: dquote :: arg ++ [dquote]) =
        some tokens)
    (hquote : ∀ arg ∈ args, dquote ∉ arg) (hback : Kept backslash tokens) :
    ∀ arg ∈ args, Quotable arg := by
  induction args generalizing tokens with
  | nil => exact fun arg harg => absurd harg List.not_mem_nil
  | cons arg args ih =>
      rw [List.flatMap_cons, classify_argument] at hclassify
      obtain ⟨inner, hinner, rfl⟩ := Option.map_eq_some_iff.mp hclassify
      have hinnerBack : Kept backslash inner :=
        (kept_cons.mp (kept_cons.mp hback).2).2
      have harg : Quotable arg := quotable_of_classify_double
        (hquote arg List.mem_cons_self) hinner hinnerBack
      rw [classify_double_of_quotable _ harg] at hinner
      obtain ⟨later, hlater, rfl⟩ := Option.map_eq_some_iff.mp hinner
      have hlaterBack : Kept backslash later :=
        (kept_cons.mp (kept_append.mp hinnerBack).2).2
      have hargs := ih hlater
        (fun other hother => hquote other (List.mem_cons_of_mem arg hother))
        hlaterBack
      intro other hother
      rcases List.mem_cons.mp hother with rfl | hother
      · exact harg
      · exact hargs other hother

theorem wordsOf_literalTokens (word : Option (List Byte)) (text : List Byte)
    (tokens : List Token) (hne : word ≠ none ∨ text ≠ []) :
    wordsOf word (literalTokens text ++ tokens) =
      wordsOf (some (word.getD [] ++ text)) tokens := by
  induction text generalizing word with
  | nil => cases word <;> simp_all [literalTokens]
  | cons byte text ih =>
      have hrest := ih (some (word.getD [] ++ [byte])) (.inl nofun)
      simpa [literalTokens, wordsOf] using hrest

theorem wordsOf_arguments (word : List Byte) (args : List (List Byte)) :
    wordsOf (some word) (args.flatMap fun arg =>
      (blank, .separator) :: quotedTokens arg) = word :: args := by
  induction args generalizing word with
  | nil => rfl
  | cons arg args ih =>
      have harg : ∀ tokens, wordsOf (some []) (literalTokens arg ++ tokens) =
          wordsOf (some arg) tokens :=
        fun tokens => wordsOf_literalTokens (some []) arg tokens (.inl nofun)
      simpa [quotedTokens, wordsOf, harg] using ih arg

/-- A command with arguments in double quotes is read back as it was meant
exactly when double quotes protect every argument. -/
theorem shellWords_commandLine {command : List Byte}
    {args : List (List Byte)} (hne : command ≠ [])
    (hordinary : ∀ byte ∈ command, isOrdinary byte = true) :
    shellWords (commandLine command args) = some (command :: args) ↔
      ∀ arg ∈ args, Quotable arg := by
  have hclassify : classify (.bare false) (commandLine command args) =
      (classify (.bare true)
        (args.flatMap fun arg => blank :: dquote :: arg ++ [dquote])).map
          (literalTokens command ++ ·) :=
    classify_ordinary _ hne hordinary
  constructor
  · intro hwords
    obtain ⟨tokens, htokens, hargs⟩ := Option.map_eq_some_iff.mp hwords
    have hbytes := classify_bytes htokens
    have hliterals : literals tokens = command ++ args.flatten := by
      have hflatten := flatten_wordsOf none tokens
      rw [hargs] at hflatten
      simpa using hflatten.symm
    have hkept : ∀ byte, byte ≠ blank → byte ≠ dquote →
        Kept byte tokens := by
      intro byte hblank hdquote
      apply kept_of_count
      rw [hbytes, hliterals]
      exact (count_commandLine command args hblank hdquote).symm
    have hback : Kept backslash tokens := hkept backslash nofun nofun
    have hsquote : Kept squote tokens := hkept squote nofun nofun
    have hdquote : dquote ∉ command ++ args.flatten := by
      rw [← hliterals]
      exact dquote_notMem_literals htokens nofun hback hsquote
    rw [hclassify] at htokens
    obtain ⟨later, hlater, rfl⟩ := Option.map_eq_some_iff.mp htokens
    apply quotable_of_classify_arguments hlater
    · intro arg harg hmem
      apply hdquote
      rw [List.mem_append, List.mem_flatten]
      exact .inr ⟨arg, harg, hmem⟩
    · exact (kept_append.mp hback).2
  · intro hargs
    rw [shellWords, hclassify, classify_arguments hargs]
    simp [wordsOf_literalTokens none command _ (.inr hne), wordsOf_arguments]

end SyncAnywhere.ShellWords
