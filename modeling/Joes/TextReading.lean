import Mathlib.Data.List.Infix
import Mathlib.Data.Nat.Digits.Defs

/-!
# Reading text

What a script does to a text before it can calculate with it: to take it line by
line, to split a line at a separator, and to read a numeral. A text is a list of
characters of any type.

Each of them undoes a way to write. The lines of lines that were written one
after the other are these lines (`lines_flatMap`), a piece before a separator is
the first one if it has no character of it (`splitOnList_append`), and the digits
of a number are read as the number (`readNumeral_digits`).

A file that is opened as a text has three ways to end a line: a newline, a carriage
return, and the one after the other. They are made one before there are any lines
(`universalNewlines`). Since this only goes by the character before, a text behind a
newline is read as if there was nothing in front of it
(`lines_universalNewlines_append`). It invents nothing either: a word that is in a
line of what is read, with no end of a line in it, was in the text
(`infix_of_infix_line`), which is what a search for a word in a line needs to know.
-/

namespace TextReading

variable {α : Type}

section Pieces

variable [DecidableEq α]

/-! ## Lines -/

/-- The lines of a text, each with the newline that ends it. -/
def lines (newline : α) : List α → List (List α)
  | [] => []
  | c :: text =>
    if c = newline then [c] :: lines newline text
    else
      match lines newline text with
      | [] => [[c]]
      | line :: rest => (c :: line) :: rest

variable {newline : α}

/-- A line is read up to its newline. -/
theorem lines_append_cons {line : List α} (h : newline ∉ line) (text : List α) :
    lines newline (line ++ newline :: text) = (line ++ [newline]) :: lines newline text := by
  induction line with
  | nil => exact if_pos rfl
  | cons c line ih =>
    obtain ⟨hc, hline⟩ := not_or.mp (mt List.mem_cons.mpr h)
    rw [List.cons_append, lines, if_neg (Ne.symm hc), ih hline]
    rfl

/-- **Lines that were written are read.** -/
theorem lines_flatMap {β : Type} {line : β → List α} (items : List β)
    (h : ∀ x ∈ items, newline ∉ line x) :
    lines newline (items.flatMap fun x => line x ++ [newline])
      = items.map fun x => line x ++ [newline] := by
  induction items with
  | nil => rfl
  | cons x items ih =>
    obtain ⟨hx, hitems⟩ := List.forall_mem_cons.mp h
    rw [List.flatMap_cons, List.append_assoc, List.singleton_append, lines_append_cons hx,
      ih hitems, List.map_cons]

/-- A newline separates what is before it from what is behind it. -/
theorem lines_append_newline (text rest : List α) :
    lines newline (text ++ newline :: rest)
      = lines newline (text ++ [newline]) ++ lines newline rest := by
  induction text with
  | nil => simp [lines]
  | cons c text ih =>
    obtain ⟨line, more, hlines⟩ : ∃ line more,
        lines newline (text ++ [newline]) = line :: more := by
      refine List.exists_cons_of_ne_nil ?_
      cases text with
      | nil => simp [lines]
      | cons d text =>
        rw [List.cons_append, lines]
        split
        · exact List.cons_ne_nil _ _
        · split <;> exact List.cons_ne_nil _ _
    rw [List.cons_append, List.cons_append, lines, lines, ih, hlines]
    by_cases hc : c = newline
    · rw [if_pos hc, if_pos hc]
      rfl
    · rw [if_neg hc, if_neg hc]
      rfl

/-- The lines of a text are the text. -/
theorem lines_flatten (text : List α) : (lines newline text).flatten = text := by
  induction text with
  | nil => rfl
  | cons c text ih =>
    rw [lines]
    split
    · rw [List.flatten_cons, ih, List.singleton_append]
    · split
      · next hlines =>
        rw [hlines] at ih
        rw [← ih]
        rfl
      · next line rest hlines =>
        rw [hlines, List.flatten_cons] at ih
        rw [← ih]
        rfl

/-! ## Ends of lines -/

/-- The rest of a text with one end of a line for all, given that there was a
carriage return before it, of which a newline would be a part. -/
def newlinesAfter (cr newline : α) : Bool → List α → List α
  | _, [] => []
  | afterCr, c :: text =>
    if c = cr then newline :: newlinesAfter cr newline true text
    else if c = newline ∧ afterCr then newlinesAfter cr newline false text
    else c :: newlinesAfter cr newline false text

/-- **One end of a line for all**: carriage returns, and carriage returns with a newline,
become newlines. -/
def universalNewlines (cr newline : α) (text : List α) : List α :=
  newlinesAfter cr newline false text

variable {cr : α}

/-- What has no carriage return stays. -/
theorem universalNewlines_append {text : List α} (h : cr ∉ text) (rest : List α) :
    universalNewlines cr newline (text ++ rest) = text ++ universalNewlines cr newline rest := by
  induction text with
  | nil => rfl
  | cons c text ih =>
    obtain ⟨hc, htext⟩ := not_or.mp (mt List.mem_cons.mpr h)
    have hrest := ih htext
    unfold universalNewlines at hrest ⊢
    rw [List.cons_append, newlinesAfter, if_neg (Ne.symm hc), if_neg (by simp), hrest,
      List.cons_append]

/-- A newline is where the rest starts anew. What comes before it ends with a newline,
which is the one that a carriage return in front stands for if that is all. -/
theorem newlinesAfter_append_newline (hne : newline ≠ cr) (text rest : List α) :
    ∀ afterCr, newlinesAfter cr newline afterCr (text ++ newline :: rest)
        = newlinesAfter cr newline afterCr (text ++ [newline]) ++
          newlinesAfter cr newline false rest ∧
      ∃ before, (if afterCr then [newline] else []) ++
        newlinesAfter cr newline afterCr (text ++ [newline]) = before ++ [newline] := by
  induction text with
  | nil =>
    intro afterCr
    cases afterCr <;> simp [newlinesAfter, hne]
  | cons c text ih =>
    intro afterCr
    rw [List.cons_append, List.cons_append, newlinesAfter, newlinesAfter]
    by_cases hcr : c = cr
    · obtain ⟨heq, before, hbefore⟩ := ih true
      rw [if_pos hcr, if_pos hcr, heq]
      refine ⟨rfl, (if afterCr then [newline] else []) ++ before, ?_⟩
      rw [List.append_assoc, ← hbefore]
      rfl
    obtain ⟨heq, before, hbefore⟩ := ih false
    rw [if_neg hcr, if_neg hcr]
    by_cases hskip : c = newline ∧ afterCr
    · rw [if_pos hskip, if_pos hskip, heq]
      exact ⟨rfl, (if afterCr then [newline] else []) ++ before, by
        rw [List.append_assoc, ← hbefore]
        rfl⟩
    · rw [if_neg hskip, if_neg hskip, heq]
      exact ⟨rfl, (if afterCr then [newline] else []) ++ c :: before, by
        rw [List.append_assoc, List.cons_append, ← hbefore]
        rfl⟩

/-- **Lines behind a newline** do not depend on what was before it. -/
theorem lines_universalNewlines_append (hne : newline ≠ cr) (text rest : List α) :
    lines newline (universalNewlines cr newline (text ++ newline :: rest))
      = lines newline (universalNewlines cr newline (text ++ [newline])) ++
        lines newline (universalNewlines cr newline rest) := by
  obtain ⟨heq, before, hbefore⟩ := newlinesAfter_append_newline hne text rest false
  unfold universalNewlines
  rw [heq, show newlinesAfter cr newline false (text ++ [newline]) = before ++ [newline] from
    hbefore, List.append_assoc, List.singleton_append]
  exact lines_append_newline before _

variable {word : List α}

/-- A word with no end of a line in it, that starts what is read, starts the text. -/
theorem prefix_of_prefix_newlinesAfter (hnewline : newline ∉ word) (text : List α) :
    word <+: newlinesAfter cr newline false text → word <+: text := by
  induction text generalizing word with
  | nil => exact id
  | cons c text ih =>
    intro h
    cases word with
    | nil => exact List.nil_prefix
    | cons w word =>
      obtain ⟨hw, hword⟩ := not_or.mp (mt List.mem_cons.mpr hnewline)
      rw [newlinesAfter] at h
      by_cases hcr : c = cr
      · rw [if_pos hcr] at h
        exact absurd (List.cons_prefix_cons.mp h).1.symm hw
      · rw [if_neg hcr, if_neg (by simp)] at h
        obtain ⟨rfl, hprefix⟩ := List.cons_prefix_cons.mp h
        exact List.cons_prefix_cons.mpr ⟨rfl, ih hword hprefix⟩

theorem infix_of_infix_newlinesAfter (hnewline : newline ∉ word) (text : List α) :
    ∀ afterCr, word <:+: newlinesAfter cr newline afterCr text → word <:+: text := by
  induction text with
  | nil => exact fun _ => id
  | cons c text ih =>
    intro afterCr h
    rw [newlinesAfter] at h
    by_cases hcr : c = cr
    · rw [if_pos hcr] at h
      rcases List.infix_cons_iff.mp h with hprefix | hinfix
      · cases word with
        | nil => exact List.nil_infix
        | cons w word =>
          exact absurd (List.mem_cons.mpr (.inl (List.cons_prefix_cons.mp hprefix).1.symm)) hnewline
      · exact List.infix_cons (ih true hinfix)
    rw [if_neg hcr] at h
    by_cases hskip : c = newline ∧ afterCr
    · rw [if_pos hskip] at h
      exact List.infix_cons (ih false h)
    · rw [if_neg hskip] at h
      rcases List.infix_cons_iff.mp h with hprefix | hinfix
      · cases word with
        | nil => exact List.nil_infix
        | cons w word =>
          obtain ⟨rfl, hrest⟩ := List.cons_prefix_cons.mp hprefix
          have hword : newline ∉ word := fun hmem => hnewline (List.mem_cons_of_mem _ hmem)
          exact (List.cons_prefix_cons.mpr
            ⟨rfl, prefix_of_prefix_newlinesAfter hword _ hrest⟩).isInfix
      · exact List.infix_cons (ih false hinfix)

/-- **A word in a line was in the text.** -/
theorem infix_of_infix_line (hnewline : newline ∉ word) {text line : List α}
    (hline : line ∈ lines newline (universalNewlines cr newline text)) (h : word <:+: line) :
    word <:+: text := by
  have hread : line <:+: universalNewlines cr newline text := by
    obtain ⟨pre, post, hlines⟩ := List.append_of_mem hline
    have hflatten : (lines newline (universalNewlines cr newline text)).flatten
        = universalNewlines cr newline text := lines_flatten _
    rw [hlines, List.flatten_append, List.flatten_cons, ← List.append_assoc] at hflatten
    exact ⟨pre.flatten, post.flatten, hflatten⟩
  exact infix_of_infix_newlinesAfter hnewline text false (h.trans hread)

/-! ## Splitting -/

/-- The pieces between the separators, past the characters that are left of one. -/
def splitSkip (sep : List α) : ℕ → List α → List (List α)
  | _, [] => [[]]
  | k + 1, _ :: text => splitSkip sep k text
  | 0, c :: text =>
    if sep <+: c :: text then [] :: splitSkip sep (sep.length - 1) text
    else (splitSkip sep 0 text).modifyHead (c :: ·)

/-- **The pieces of a text** between the occurrences of a separator, from left to
right. -/
def splitOnList (sep text : List α) : List (List α) := splitSkip sep 0 text

theorem splitSkip_eq (sep : List α) (k : ℕ) (text : List α) :
    splitSkip sep k text = splitOnList sep (text.drop k) := by
  induction k generalizing text with
  | zero => rfl
  | succ k ih =>
    cases text with
    | nil => rfl
    | cons c text => exact ih text

variable {x : α} {sep : List α}

omit [DecidableEq α] in
theorem not_prefix_of_ne {c : α} (h : c ≠ x) (text : List α) : ¬ x :: sep <+: c :: text := fun hp =>
  h (List.cons_prefix_cons.mp hp).1.symm

/-- **A piece before a separator** whose first character it does not have. -/
theorem splitOnList_append {piece : List α} (h : x ∉ piece) (text : List α) :
    splitOnList (x :: sep) (piece ++ (x :: sep ++ text))
      = piece :: splitOnList (x :: sep) text := by
  induction piece with
  | nil =>
    have hprefix : x :: sep <+: x :: (sep ++ text) := List.prefix_append (x :: sep) text
    rw [List.nil_append, List.cons_append, splitOnList, splitSkip, if_pos hprefix, splitSkip_eq]
    simp
  | cons c piece ih =>
    obtain ⟨hc, hpiece⟩ := not_or.mp (mt List.mem_cons.mpr h)
    have hrest := ih hpiece
    unfold splitOnList at hrest ⊢
    rw [List.cons_append, splitSkip, if_neg (not_prefix_of_ne (Ne.symm hc) _), hrest]
    rfl

/-- A text without the first character of a separator is one piece. -/
theorem splitOnList_of_not_mem {text : List α} (h : x ∉ text) :
    splitOnList (x :: sep) text = [text] := by
  induction text with
  | nil => rfl
  | cons c text ih =>
    obtain ⟨hc, htext⟩ := not_or.mp (mt List.mem_cons.mpr h)
    have hrest := ih htext
    unfold splitOnList at hrest ⊢
    rw [splitSkip, if_neg (not_prefix_of_ne (Ne.symm hc) _), hrest]
    rfl

end Pieces

/-! ## Numerals -/

/-- The loop that reads a numeral, with what was read so far. -/
def readDigits (digit : α → Option ℕ) (base : ℕ) : ℕ → List α → Option ℕ
  | n, [] => some n
  | n, c :: text =>
    match digit c with
    | some d => if d < base then readDigits digit base (n * base + d) text else none
    | none => none

/-- **The number of a numeral** of at least one digit, the highest one first. -/
def readNumeral (digit : α → Option ℕ) (base : ℕ) (text : List α) : Option ℕ :=
  if text = [] then none else readDigits digit base 0 text

variable {digit : α → Option ℕ} {char : ℕ → α} {base : ℕ}

/-- One more digit, the lowest one. -/
theorem readDigits_append_singleton {text : List α} {n m d : ℕ}
    (h : readDigits digit base n text = some m) (hd : digit (char d) = some d) (hlt : d < base) :
    readDigits digit base n (text ++ [char d]) = some (m * base + d) := by
  induction text generalizing n with
  | nil =>
    obtain rfl : n = m := Option.some.inj h
    rw [List.nil_append, readDigits, hd]
    dsimp only
    rw [if_pos hlt, readDigits]
  | cons c text ih =>
    rw [readDigits] at h
    rw [List.cons_append, readDigits]
    split at h
    · next e he =>
      split at h
      · next hlt' =>
        rw [if_pos hlt']
        exact ih h
      · cases h
    · cases h

/-- **Digits are read as their number.** They are listed from the lowest one on,
and written from the highest one on. -/
theorem readNumeral_digits {digits : List ℕ} (hne : digits ≠ [])
    (h : ∀ d ∈ digits, d < base ∧ digit (char d) = some d) :
    readNumeral digit base (digits.map char).reverse = some (Nat.ofDigits base digits) := by
  have hread : ∀ digits : List ℕ, (∀ d ∈ digits, d < base ∧ digit (char d) = some d) →
      readDigits digit base 0 (digits.map char).reverse = some (Nat.ofDigits base digits) := by
    intro digits h
    induction digits with
    | nil => rfl
    | cons d digits ih =>
      obtain ⟨⟨hlt, hd⟩, hrest⟩ := List.forall_mem_cons.mp h
      rw [List.map_cons, List.reverse_cons, readDigits_append_singleton (ih hrest) hd hlt,
        Nat.ofDigits_cons, Nat.add_comm, Nat.mul_comm]
  rw [readNumeral, if_neg (by simpa using hne)]
  exact hread digits h

end TextReading
