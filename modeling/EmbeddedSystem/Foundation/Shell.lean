import Mathlib.Algebra.GroupWithZero.Nat
import Mathlib.Data.List.Infix
import Mathlib.Tactic.Common

/-!
# How the shell reads a command

The token rules of the POSIX shell as an automaton over bytes: words with their quoting
removed, and operators.  It has no answer where a text is cut off in a quotation, and
where the result depends on more than the text: after an unquoted `$` or backquote, and
for a word that is a pattern, in the place of which the shell puts the names of the files
that match it.
-/

namespace Shell

/-! ## Patterns -/

/-- How far an unquoted `[` in a word has got towards a bracket expression. -/
inductive Bracket
  | absent
  /-- Right after the `[` or the `[!`, where a `]` is an element. -/
  | opened
  | negated
  | inside
  deriving DecidableEq, Repr

/-- An unquoted byte of the word; there is no answer when it closes the bracket. -/
def Bracket.next : Bracket → UInt8 → Option Bracket
  | .absent, b => if b = 91 then some .opened else some .absent
  | .opened, b => if b = 33 then some .negated else some .inside
  | .negated, _ => some .inside
  | .inside, b => if b = 93 then none else some .inside

def Bracket.quoted : Bracket → Bracket
  | .absent => .absent
  | _ => .inside

def Bracket.read (k : Bracket) : List UInt8 → Option Bracket
  | [] => some k
  | b :: s => (k.next b).bind fun k ↦ k.read s

/-- A `[` with a later `]` that closes it: something stands between them that is not
just the `!` of a complement. -/
def HasBracket (s : List UInt8) : Prop :=
  ∃ before inside after, s = before ++ 91 :: (inside ++ 93 :: after) ∧ inside ≠ [] ∧ inside ≠ [33]

theorem read_inside (s : List UInt8) : Bracket.inside.read s = none ↔ 93 ∈ s := by
  induction s with
  | nil => simp [Bracket.read]
  | cons b s ih =>
      by_cases hb : b = 93
      · simp [Bracket.read, Bracket.next, hb]
      · simp [Bracket.read, Bracket.next, hb, ih, Ne.symm hb]

theorem read_negated (b : UInt8) (s : List UInt8) :
    Bracket.negated.read (b :: s) = none ↔ 93 ∈ s := read_inside s

theorem read_opened_iff (s : List UInt8) :
    Bracket.opened.read s = none ↔
      ∃ inside after, s = inside ++ 93 :: after ∧ inside ≠ [] ∧ inside ≠ [33] := by
  cases s with
  | nil => simp [Bracket.read]
  | cons b s =>
      by_cases hb : b = 33
      · subst hb
        change Bracket.negated.read s = none ↔ _
        cases s with
        | nil =>
            refine iff_of_false (by simp [Bracket.read]) ?_
            rintro ⟨inside, after, heq, hne, -⟩
            have hlength := congrArg List.length heq
            have hinside := List.length_pos_iff.mpr hne
            simp only [List.length_append, List.length_cons, List.length_nil] at hlength
            omega
        | cons c s =>
            rw [read_negated]
            constructor
            · intro hclose
              obtain ⟨t, after, rfl⟩ := List.append_of_mem hclose
              exact ⟨33 :: c :: t, after, rfl, by simp, by simp⟩
            · rintro ⟨inside, after, heq, hne, hne'⟩
              obtain ⟨d, inside, rfl⟩ := List.exists_cons_of_ne_nil hne
              obtain ⟨rfl, hrest⟩ := List.cons.inj heq
              cases inside with
              | nil => exact absurd rfl hne'
              | cons e inside =>
                  obtain ⟨-, rfl⟩ := List.cons.inj hrest
                  simp
      · have hnext : Bracket.opened.read (b :: s) = Bracket.inside.read s := by
          simp [Bracket.read, Bracket.next, hb]
        rw [hnext, read_inside]
        constructor
        · intro hclose
          obtain ⟨t, after, rfl⟩ := List.append_of_mem hclose
          exact ⟨b :: t, after, rfl, by simp, by simp [hb]⟩
        · rintro ⟨inside, after, heq, hne, -⟩
          obtain ⟨d, inside, rfl⟩ := List.exists_cons_of_ne_nil hne
          obtain ⟨rfl, rfl⟩ := List.cons.inj heq
          simp

/-- The first `[` decides: a `]` that closes a later one closes it as well. -/
theorem read_absent_iff (s : List UInt8) : Bracket.absent.read s = none ↔ HasBracket s := by
  induction s with
  | nil => simp [Bracket.read, HasBracket]
  | cons b s ih =>
      by_cases hb : b = 91
      · subst hb
        change Bracket.opened.read s = none ↔ _
        rw [read_opened_iff]
        constructor
        · rintro ⟨inside, after, rfl, hne⟩
          exact ⟨[], inside, after, rfl, hne⟩
        · rintro ⟨before, inside, after, heq, hne, hne'⟩
          cases before with
          | nil => exact ⟨inside, after, (List.cons.inj heq).2, hne, hne'⟩
          | cons c before =>
              obtain ⟨-, rfl⟩ := List.cons.inj heq
              refine ⟨before ++ 91 :: inside, after, by simp, by simp, fun h ↦ hne ?_⟩
              have hlength := congrArg List.length h
              simp only [List.length_append, List.length_cons, List.length_nil] at hlength
              exact List.eq_nil_of_length_eq_zero (by omega)
      · have hnext : Bracket.absent.read (b :: s) = Bracket.absent.read s := by
          simp [Bracket.read, Bracket.next, hb]
        rw [hnext, ih]
        constructor
        · rintro ⟨before, inside, after, rfl, hne⟩
          exact ⟨b :: before, inside, after, rfl, hne⟩
        · rintro ⟨before, inside, after, heq, hne⟩
          cases before with
          | nil => exact absurd (List.cons.inj heq).1 hb
          | cons c before => exact ⟨before, inside, after, (List.cons.inj heq).2, hne⟩

/-! ## The automaton -/

/-- A word in progress. -/
structure Word where
  text : List UInt8
  bracket : Bracket
  deriving DecidableEq, Repr

def Word.empty : Word := ⟨[], .absent⟩

def Word.push (w : Word) (b : UInt8) : Option Word :=
  (w.bracket.next b).map fun k ↦ ⟨w.text ++ [b], k⟩

def Word.quote (w : Word) (s : List UInt8) : Word := ⟨w.text ++ s, w.bracket.quoted⟩

/-- A word, or an operator. -/
inductive Token
  | word (text : List UInt8)
  | op (text : List UInt8)
  deriving DecidableEq, Repr

/-- What an unquoted byte follows: no token, or the token in progress. -/
inductive Pending
  | blank
  | word (w : Word)
  | op (text : List UInt8)
  deriving DecidableEq, Repr

inductive Mode
  | plain (p : Pending)
  /-- After an unquoted backslash. -/
  | escaped (p : Pending)
  | single (w : Word)
  | double (w : Word)
  | doubleEscaped (w : Word)
  | comment
  deriving DecidableEq, Repr

/-- `&`, `&&`, `;`, `;;`, `|`, `||`, `<`, `<<`, `<<-`, `<&`, `<>`, `>`, `>>`, `>&`, `>|`,
`(`, `)` and the newline -/
def operators : List (List UInt8) :=
  [[38], [38, 38], [59], [59, 59], [124], [124, 124], [60], [60, 60], [60, 60, 45], [60, 38],
    [60, 62], [62], [62, 62], [62, 38], [62, 124], [40], [41], [10]]

def startsOperator (b : UInt8) : Bool := [b] ∈ operators

def isBlank (b : UInt8) : Bool := b = 32 || b = 9

/-- The bytes after which the result depends on more than the text: `$`, the backquote,
`*` and `?`. -/
def expands (b : UInt8) : Bool := b = 36 || b = 96 || b = 42 || b = 63

/-- The bytes that are not themselves inside a word: the backslash, `'`, `"`, `$`, the
backquote, `*`, `?`, blanks and operators. -/
def isSpecial (b : UInt8) : Bool :=
  b = 92 || b = 39 || b = 34 || expands b || startsOperator b || isBlank b

def Pending.flush : Pending → List Token
  | .blank => []
  | .word w => [.word w.text]
  | .op text => [.op text]

/-- The tokens that are complete when a byte of a word follows, and this word so far. -/
def Pending.begin : Pending → List Token × Word
  | .blank => ([], .empty)
  | .word w => ([], w)
  | .op text => ([.op text], .empty)

/-- The longer operator that a byte makes of the one in progress. -/
def Pending.extend (b : UInt8) : Pending → Option (List UInt8)
  | .op text => if text ++ [b] ∈ operators then some (text ++ [b]) else none
  | _ => none

def Pending.inWord : Pending → Bool
  | .word _ => true
  | _ => false

def nextPlain (p : Pending) (b : UInt8) : Option (List Token × Mode) :=
  match p.extend b with
  | some op => some ([], .plain (.op op))
  | none =>
    if b = 92 then some ([], .escaped p)
    else if b = 39 then some (p.begin.1, .single p.begin.2)
    else if b = 34 then some (p.begin.1, .double p.begin.2)
    else if expands b then none
    else if startsOperator b then some (p.flush, .plain (.op [b]))
    else if isBlank b then some (p.flush, .plain .blank)
    else if b = 35 ∧ p.inWord = false then some (p.flush, .comment)
    else (p.begin.2.push b).map fun w ↦ (p.begin.1, .plain (.word w))

/-- The tokens that a byte completes, and the mode after it. -/
def next : Mode → UInt8 → Option (List Token × Mode)
  | .plain p, b => nextPlain p b
  | .escaped p, b =>
    -- a backslash joins two lines
    if b = 10 then some ([], .plain p)
    else some (p.begin.1, .plain (.word (p.begin.2.quote [b])))
  | .single w, b =>
    if b = 39 then some ([], .plain (.word w)) else some ([], .single (w.quote [b]))
  | .double w, b =>
    if b = 34 then some ([], .plain (.word w))
    else if b = 92 then some ([], .doubleEscaped w)
    else if b = 36 ∨ b = 96 then none
    else some ([], .double (w.quote [b]))
  | .doubleEscaped w, b =>
    if b = 10 then some ([], .double w)
    else if b = 34 ∨ b = 92 ∨ b = 36 ∨ b = 96 then some ([], .double (w.quote [b]))
    else some ([], .double (w.quote [92, b]))
  | .comment, b =>
    if b = 10 then some ([], .plain (.op [10])) else some ([], .comment)

def run : Mode → List UInt8 → Option (List Token × Mode)
  | m, [] => some ([], m)
  | m, b :: s => (next m b).bind fun r ↦ (run r.2 s).map fun q ↦ (r.1 ++ q.1, q.2)

def finish : Mode → Option (List Token)
  | .plain p => some p.flush
  | .comment => some []
  | _ => none

def lexFrom (m : Mode) (s : List UInt8) : Option (List Token) :=
  (run m s).bind fun r ↦ (finish r.2).map (r.1 ++ ·)

def lex (s : List UInt8) : Option (List Token) := lexFrom (.plain .blank) s

/-- The words of a list of tokens that is one simple command in the background. -/
def background : List Token → Option (List (List UInt8))
  | .word text :: rest =>
    if rest = [.op [38]] then some [text] else (background rest).map (text :: ·)
  | _ => none

theorem run_append (m : Mode) (s t : List UInt8) :
    run m (s ++ t) = (run m s).bind fun r ↦ (run r.2 t).map fun q ↦ (r.1 ++ q.1, q.2) := by
  induction s generalizing m with
  | nil => simp [run]
  | cons b s ih =>
      rw [List.cons_append, run, run]
      cases next m b with
      | none => rfl
      | some r =>
          simp only [Option.bind_some, ih]
          cases run r.2 s with
          | none => rfl
          | some q =>
              simp only [Option.bind_some, Option.map_some, Option.map_map]
              cases run q.2 t <;> simp

theorem of_run_cons {m m' : Mode} {b : UInt8} {s : List UInt8} {tokens : List Token}
    (h : run m (b :: s) = some (tokens, m')) :
    ∃ now u later, next m b = some (now, u) ∧ run u s = some (later, m') ∧
      now ++ later = tokens := by
  obtain ⟨⟨now, u⟩, hnext, hrest⟩ := Option.bind_eq_some_iff.mp h
  obtain ⟨⟨later, v⟩, hrun, heq⟩ := Option.map_eq_some_iff.mp hrest
  cases heq
  exact ⟨now, u, later, hnext, hrun, rfl⟩

theorem lexFrom_append (m : Mode) (s t : List UInt8) :
    lexFrom m (s ++ t) = (run m s).bind fun r ↦ (lexFrom r.2 t).map (r.1 ++ ·) := by
  rw [lexFrom, run_append]
  cases run m s with
  | none => rfl
  | some r =>
      simp only [Option.bind_some, lexFrom]
      cases run r.2 t with
      | none => rfl
      | some q =>
          simp only [Option.map_some, Option.bind_some]
          cases finish q.2 <;> simp

theorem nextPlain_of_not_isSpecial {b : UInt8} (h : isSpecial b = false) (w : Word) :
    nextPlain (.word w) b = (w.push b).map fun w ↦ ([], .plain (.word w)) := by
  simp only [isSpecial, Bool.or_eq_false_iff, decide_eq_false_iff_not] at h
  simp [nextPlain, Pending.extend, Pending.begin, Pending.inWord, h]

/-- A text without special bytes becomes part of the word that it is in. -/
theorem run_of_not_isSpecial {s : List UInt8} (h : ∀ b ∈ s, isSpecial b = false) (w : Word) :
    run (.plain (.word w)) s =
      (w.bracket.read s).map fun k ↦ ([], .plain (.word ⟨w.text ++ s, k⟩)) := by
  induction s generalizing w with
  | nil => simp [run, Bracket.read]
  | cons b s ih =>
      obtain ⟨hb, hs⟩ := List.forall_mem_cons.mp h
      rw [run, next, nextPlain_of_not_isSpecial hb, Word.push, Bracket.read]
      cases w.bracket.next b with
      | none => rfl
      | some k =>
          simp only [Option.map_some, Option.bind_some, ih hs]
          cases k.read s <;> simp

/-! ## What the words keep of the bytes -/

def Token.weight : Token → ℕ
  | .word text => text.length
  | .op _ => 0

def weight (tokens : List Token) : ℕ := (tokens.map Token.weight).sum

/-- How many bytes the token in progress can still bring into a word. -/
def Mode.weight : Mode → ℕ
  | .plain p => Shell.weight p.flush
  | .escaped p => Shell.weight p.flush
  | .single w => w.text.length
  | .double w => w.text.length
  | .doubleEscaped w => w.text.length + 1
  | .comment => 0

@[simp] theorem weight_nil : weight [] = 0 := rfl

@[simp] theorem weight_cons (t : Token) (tokens : List Token) :
    weight (t :: tokens) = t.weight + weight tokens := rfl

@[simp] theorem weight_append (s t : List Token) : weight (s ++ t) = weight s + weight t := by
  simp [weight]

@[simp] theorem weight_word (text : List UInt8) : (Token.word text).weight = text.length := rfl

@[simp] theorem weight_op (text : List UInt8) : (Token.op text).weight = 0 := rfl

@[simp] theorem flush_word (w : Word) : (Pending.word w).flush = [.word w.text] := rfl

@[simp] theorem flush_op (text : List UInt8) : (Pending.op text).flush = [.op text] := rfl

@[simp] theorem text_quote (w : Word) (s : List UInt8) : (w.quote s).text = w.text ++ s := rfl

theorem text_of_push {w u : Word} {b : UInt8} (h : w.push b = some u) : u.text = w.text ++ [b] := by
  obtain ⟨k, -, rfl⟩ := Option.map_eq_some_iff.mp h
  rfl

theorem weight_begin (p : Pending) :
    weight p.begin.1 + p.begin.2.text.length = weight p.flush := by
  cases p <;> simp [Pending.begin, Pending.flush, Word.empty]

/-- A special byte comes into no word itself. -/
theorem weight_nextPlain_special {p : Pending} {b : UInt8} {tokens : List Token} {m : Mode}
    (hb : isSpecial b = true) (h : nextPlain p b = some (tokens, m)) :
    weight tokens + m.weight ≤ weight p.flush := by
  have hbegin := weight_begin p
  unfold nextPlain at h
  split at h
  next op hextend =>
    cases h
    exact Nat.zero_le _
  next =>
    by_cases hlast : b = 35 ∧ p.inWord = false
    · simp [isSpecial, hlast.1, expands, startsOperator, operators, isBlank] at hb
    split_ifs at h
    · cases h
      simp [Mode.weight]
    · cases h
      exact hbegin.le
    · cases h
      exact hbegin.le
    · cases h
      simp [Mode.weight]
    · cases h
      exact Nat.le_refl _
    · simp_all [isSpecial]

theorem weight_nextPlain {p : Pending} {b : UInt8} {tokens : List Token} {m : Mode}
    (h : nextPlain p b = some (tokens, m)) : weight tokens + m.weight ≤ weight p.flush + 1 := by
  cases hb : isSpecial b with
  | true => exact (weight_nextPlain_special hb h).trans (Nat.le_succ _)
  | false =>
      have hbegin := weight_begin p
      unfold nextPlain at h
      split at h
      next op hextend =>
        cases h
        exact Nat.zero_le _
      next =>
        simp only [isSpecial, Bool.or_eq_false_iff, decide_eq_false_iff_not] at hb
        simp only [hb, if_false, Bool.false_eq_true] at h
        split_ifs at h
        · cases h
          exact Nat.le_succ _
        · obtain ⟨w, hpush, hw⟩ := Option.map_eq_some_iff.mp h
          cases hw
          simp only [Mode.weight, flush_word, weight_cons, weight_word, text_of_push hpush,
            List.length_append, List.length_singleton, weight_nil]
          omega

theorem weight_next {m m' : Mode} {b : UInt8} {tokens : List Token}
    (h : next m b = some (tokens, m')) : weight tokens + m'.weight ≤ m.weight + 1 := by
  cases m with
  | plain p => exact weight_nextPlain h
  | escaped p =>
      have hbegin := weight_begin p
      simp only [next] at h
      split_ifs at h
      · cases h
        simp [Mode.weight]
      · cases h
        simp only [Mode.weight, flush_word, weight_cons, weight_word, text_quote,
          List.length_append, List.length_singleton, weight_nil]
        omega
  | single w =>
      simp only [next] at h
      split_ifs at h <;> cases h <;> simp [Mode.weight]
  | double w =>
      simp only [next] at h
      split_ifs at h <;> cases h <;> simp [Mode.weight]
  | doubleEscaped w =>
      simp only [next] at h
      split_ifs at h
      all_goals
        cases h
        simp [Mode.weight]
      exact Nat.le_add_right _ 2
  | comment =>
      simp only [next] at h
      split_ifs at h <;> cases h <;> simp [Mode.weight]

theorem weight_run {m m' : Mode} {s : List UInt8} {tokens : List Token}
    (h : run m s = some (tokens, m')) : weight tokens + m'.weight ≤ m.weight + s.length := by
  induction s generalizing m tokens with
  | nil =>
      cases h
      simp
  | cons b s ih =>
      obtain ⟨now, u, later, hnext, hrun, rfl⟩ := of_run_cons h
      have hnow : weight now + u.weight ≤ m.weight + 1 := weight_next hnext
      have hlater : weight later + m'.weight ≤ u.weight + s.length := ih hrun
      rw [weight_append, List.length_cons]
      omega

/-! ## A text at the end of a command -/

theorem next_escaped {m : Mode} {b : UInt8} {tokens : List Token} {p : Pending}
    (h : next m b = some (tokens, .escaped p)) : b = 92 := by
  cases m with
  | plain q =>
      simp only [next, nextPlain] at h
      split at h
      next => cases h
      next =>
        split_ifs at h with hb
        · exact hb
        all_goals try cases h
        obtain ⟨w, -, hw⟩ := Option.map_eq_some_iff.mp h
        cases hw
  | escaped | single | double | doubleEscaped | comment =>
      simp only [next] at h
      split_ifs at h <;> cases h

theorem run_concat_escaped {m : Mode} {s : List UInt8} {b : UInt8} {tokens : List Token}
    {p : Pending} (h : run m (s ++ [b]) = some (tokens, .escaped p)) : b = 92 := by
  rw [run_append] at h
  obtain ⟨⟨_, u⟩, -, hrest⟩ := Option.bind_eq_some_iff.mp h
  obtain ⟨⟨_, v⟩, hlast, heq⟩ := Option.map_eq_some_iff.mp hrest
  cases heq
  obtain ⟨_, _, _, hnext, hnil, -⟩ := of_run_cons hlast
  cases hnil
  exact next_escaped hnext

theorem extend_blank (p : Pending) : p.extend 32 = none := by
  cases p with
  | blank => rfl
  | word text => rfl
  | op text =>
      refine if_neg fun hmem ↦ ?_
      have hlast : ∀ op ∈ operators, op.getLast? ≠ some 32 := by decide
      exact hlast _ hmem List.getLast?_concat

/-- What follows the text: a blank, and the `&` that puts the command in the background. -/
def ampersand : List UInt8 := [32, 38]

theorem lexFrom_plain_ampersand (p : Pending) :
    lexFrom (.plain p) ampersand = some (p.flush ++ [.op [38]]) := by
  have hblank : next (.plain p) 32 = some (p.flush, .plain .blank) := by
    simp [next, nextPlain, extend_blank, expands, startsOperator, operators, isBlank]
  have hop : next (.plain .blank) 38 = some ([], .plain (.op [38])) := by decide
  simp [lexFrom, ampersand, run, hblank, hop, finish]

theorem lexFrom_escaped_ampersand (p : Pending) :
    lexFrom (.escaped p) ampersand =
      some (p.begin.1 ++ [.word (p.begin.2.text ++ [32]), .op [38]]) := by
  have hquoted : next (.escaped p) 32 =
      some (p.begin.1, .plain (.word (p.begin.2.quote [32]))) := by
    simp [next]
  have hop : next (.plain (.word (p.begin.2.quote [32]))) 38 =
      some ([.word (p.begin.2.text ++ [32])], .plain (.op [38])) := by
    simp [next, nextPlain, Pending.extend, expands, startsOperator, operators]
  simp [lexFrom, ampersand, run, hquoted, hop, finish]

theorem weight_run_special {w : Word} {s : List UInt8} {tokens : List Token} {m : Mode}
    (hspecial : ∃ b ∈ s, isSpecial b = true)
    (h : run (.plain (.word w)) s = some (tokens, m)) :
    weight tokens + m.weight < w.text.length + s.length := by
  induction s generalizing w tokens with
  | nil =>
      obtain ⟨b, hb, -⟩ := hspecial
      cases hb
  | cons b s ih =>
      obtain ⟨now, u, later, hnext, hrun, rfl⟩ := of_run_cons h
      rw [next] at hnext
      rw [List.length_cons]
      cases hb : isSpecial b with
      | true =>
          rw [weight_append]
          have hnow : weight now + u.weight ≤ w.text.length := weight_nextPlain_special hb hnext
          have hlater : weight later + m.weight ≤ u.weight + s.length := weight_run hrun
          omega
      | false =>
          rw [nextPlain_of_not_isSpecial hb] at hnext
          obtain ⟨v, hpush, hv⟩ := Option.map_eq_some_iff.mp hnext
          cases hv
          have hrest : ∃ c ∈ s, isSpecial c = true := by
            simpa [hb] using hspecial
          have hlater := ih hrest hrun
          rw [text_of_push hpush, List.length_append, List.length_singleton] at hlater
          rw [List.nil_append]
          omega

/-- Once a byte of a text is lost, the rest of the command does not bring it back. -/
theorem lexFrom_ampersand_ne {m m' : Mode} {s word : List UInt8} {b : UInt8}
    {tokens : List Token} (hrun : run m (s ++ [b]) = some (tokens, m'))
    (hweight : weight tokens + m'.weight ≤ word.length) :
    (lexFrom m' ampersand).map (tokens ++ ·) ≠ some [.word (word ++ [b]), .op [38]] := by
  intro h
  obtain ⟨rest, hrest, heq⟩ := Option.map_eq_some_iff.mp h
  have htotal : weight tokens + weight rest = word.length + 1 := by
    simpa using congrArg weight heq
  cases m' with
  | plain p =>
      rw [lexFrom_plain_ampersand] at hrest
      cases hrest
      simp only [Mode.weight, weight_append, weight_cons, weight_op, weight_nil] at hweight htotal
      omega
  | escaped p =>
      -- the backslash is the last byte of the text, and quotes the blank after it
      rw [lexFrom_escaped_ampersand] at hrest
      cases hrest
      rw [← List.append_assoc] at heq
      have hword : p.begin.2.text ++ [32] = word ++ [b] := by
        have htail := (List.append_inj' (heq.trans (List.nil_append _).symm) rfl).2
        simpa using htail
      have hlast : 32 = b := by
        simpa using congrArg List.getLast? hword
      have hbackslash : b = 92 := run_concat_escaped hrun
      rw [← hlast] at hbackslash
      exact absurd hbackslash (by decide)
  | single | double | doubleEscaped => cases hrest
  | comment =>
      obtain rfl : [] = rest := Option.some.inj hrest
      rw [weight_nil] at htotal
      omega

/-- A text that goes on a word is only that when it has none of the special bytes and
closes no bracket. -/
theorem lexFrom_word_iff (w : Word) (s : List UInt8) :
    lexFrom (.plain (.word w)) (s ++ ampersand) = some [.word (w.text ++ s), .op [38]] ↔
      (∀ b ∈ s, isSpecial b = false) ∧ w.bracket.read s ≠ none := by
  constructor
  · intro h
    rw [lexFrom_append] at h
    obtain ⟨⟨tokens, m⟩, hrun, hrest⟩ := Option.bind_eq_some_iff.mp h
    have hplain : ∀ b ∈ s, isSpecial b = false := by
      intro b hb
      by_contra hb'
      have hspecial : ∃ b ∈ s, isSpecial b = true := ⟨b, hb, Bool.of_not_eq_false hb'⟩
      have hweight := weight_run_special hspecial hrun
      obtain ⟨s, b, rfl⟩ := (List.eq_nil_or_concat' s).resolve_left (List.ne_nil_of_mem hb)
      rw [← List.append_assoc] at hrest
      refine lexFrom_ampersand_ne hrun ?_ hrest
      rw [List.length_append, List.length_singleton] at hweight
      rw [List.length_append]
      omega
    refine ⟨hplain, fun hclosed ↦ ?_⟩
    rw [run_of_not_isSpecial hplain, hclosed] at hrun
    cases hrun
  · rintro ⟨hplain, hopen⟩
    obtain ⟨k, hk⟩ := Option.ne_none_iff_exists'.mp hopen
    rw [lexFrom_append, run_of_not_isSpecial hplain, hk, Option.map_some, Option.bind_some,
      lexFrom_plain_ampersand]
    rfl

theorem background_map_word {args : List (List UInt8)} (h : args ≠ []) :
    background (args.map .word ++ [.op [38]]) = some args := by
  induction args with
  | nil => exact absurd rfl h
  | cons arg args ih =>
      obtain rfl | hargs := eq_or_ne args []
      · rfl
      · rw [List.map_cons, List.cons_append, background, if_neg (by simp [hargs]), ih hargs]
        rfl

theorem of_background {tokens : List Token} {args : List (List UInt8)}
    (h : background tokens = some args) : args.map .word ++ [.op [38]] = tokens := by
  fun_induction background tokens generalizing args with
  | case1 text =>
      cases h
      rfl
  | case2 text rest hrest ih =>
      obtain ⟨args, hargs, rfl⟩ := Option.map_eq_some_iff.mp h
      rw [List.map_cons, List.cons_append, ih hargs]
  | case3 => cases h

/-- A text put unquoted at the end of a command's last word is exactly there when none of
its bytes is special and it has no bracket expression. -/
theorem background_lex_iff {args : List (List UInt8)} {before word s : List UInt8}
    (hbefore : run (.plain .blank) before =
      some (args.map .word, .plain (.word ⟨word, .absent⟩))) :
    (lex (before ++ s ++ ampersand)).bind background = some (args ++ [word ++ s]) ↔
      (∀ b ∈ s, isSpecial b = false) ∧ ¬ HasBracket s := by
  rw [lex, List.append_assoc, lexFrom_append, hbefore, Option.bind_some, ← read_absent_iff,
    ← lexFrom_word_iff ⟨word, .absent⟩]
  constructor
  · intro h
    obtain ⟨tokens, htokens, hargs⟩ := Option.bind_eq_some_iff.mp h
    obtain ⟨rest, hrest, rfl⟩ := Option.map_eq_some_iff.mp htokens
    have heq := of_background hargs
    rw [List.map_append, List.append_assoc] at heq
    rw [hrest, ← List.append_cancel_left heq]
    rfl
  · intro h
    rw [h, Option.map_some, Option.bind_some]
    have hne : args ++ [word ++ s] ≠ [] := List.append_ne_nil_of_right_ne_nil _ (by simp)
    have hargs := background_map_word hne
    rwa [List.map_append, List.append_assoc] at hargs

end Shell
