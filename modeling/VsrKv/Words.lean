import Mathlib.Data.List.TakeWhile

/-!
# Words of a text

A text is cut into words by separators: `words` splits at each of them
and drops the empty pieces. A stream that skips separators and then takes
what comes up to the next one (`nextWord`) reads the words off one by
one.
-/

namespace Words

variable {α : Type} {sep : α → Bool}

def words (sep : α → Bool) (text : List α) : List (List α) :=
  (text.splitOnP sep).filter (!·.isEmpty)

/-- The word with this number, from 0; the empty one if there are not as
many. -/
def word (sep : α → Bool) (n : Nat) (text : List α) : List α := ((words sep text)[n]?).getD []

/-- `isspace` of the C locale, what separates the words of a line. -/
def isSpace (b : UInt8) : Bool := b == 32 || (9 ≤ b && b ≤ 13)

/-- Skip separators, take up to the next one. -/
def nextWord (sep : α → Bool) (stream : List α) : List α × List α :=
  let stream := stream.dropWhile sep
  (stream.takeWhile (!sep ·), stream.dropWhile (!sep ·))

theorem words_cons_of_sep {a : α} (h : sep a = true) (text : List α) :
    words sep (a :: text) = words sep text := by
  simp [words, List.splitOnP_cons_eq_if_modifyHead, h]

theorem words_dropWhile (text : List α) : words sep (text.dropWhile sep) = words sep text := by
  induction text with
  | nil => rfl
  | cons a text ih =>
      by_cases h : sep a = true
      · rw [List.dropWhile_cons_of_pos h, ih, words_cons_of_sep h]
      · rw [List.dropWhile_cons_of_neg h]

theorem head_dropWhile (text : List α) : ∀ a ∈ (text.dropWhile sep).head?, sep a = false := by
  intro a ha
  have h := List.head?_dropWhile_not sep text
  rw [ha] at h
  exact h

/-- Only a text without words has an empty first one. -/
theorem dropWhile_of_nextWord {text : List α} (h : (nextWord sep text).1 = []) :
    text.dropWhile sep = [] := by
  have hhead := @head_dropWhile _ sep text
  rw [nextWord] at h
  cases htext : text.dropWhile sep with
  | nil => rfl
  | cons a rest =>
      rw [htext] at h hhead
      rw [List.takeWhile_cons_of_pos (by simp [hhead a rfl])] at h
      cases h

/-- A word that a separator ends. -/
theorem words_append_cons {first : List α} {a : α} (hne : first ≠ [])
    (hfirst : ∀ x ∈ first, sep x = false) (ha : sep a = true) (rest : List α) :
    words sep (first ++ a :: rest) = first :: words sep rest := by
  rw [words, List.splitOnP_append_cons_of_forall_mem hfirst a ha,
    List.filter_cons_of_pos (by simpa using hne), words]

theorem words_singleton {first : List α} (hne : first ≠ []) (hfirst : ∀ x ∈ first, sep x = false) :
    words sep first = [first] := by
  rw [words, List.splitOnP_eq_singleton hfirst]
  simpa using hne

/-- What a stream reads is the first word, and the others follow it. -/
theorem words_eq (text : List α) :
    words sep text
      = if (nextWord sep text).1 = [] then []
        else (nextWord sep text).1 :: words sep (nextWord sep text).2 := by
  rw [← words_dropWhile text]
  split
  · rename_i h
    simp [dropWhile_of_nextWord h, words]
  · rename_i hfirst
    rw [nextWord] at hfirst ⊢
    have hsplit := List.takeWhile_append_dropWhile (p := (!sep ·)) (l := text.dropWhile sep)
    have htake : ∀ x ∈ (text.dropWhile sep).takeWhile (!sep ·), sep x = false := fun x hx => by
      simpa using List.mem_takeWhile_imp hx
    generalize (text.dropWhile sep).takeWhile (!sep ·) = first at hsplit htake hfirst ⊢
    cases hrest : (text.dropWhile sep).dropWhile (!sep ·) with
    | nil =>
        rw [hrest, List.append_nil] at hsplit
        rw [← hsplit, words_singleton hfirst htake]
        rfl
    | cons a rest =>
        have ha : sep a = true := by
          simpa using @head_dropWhile _ (!sep ·) (text.dropWhile sep) a (by rw [hrest]; rfl)
        rw [hrest] at hsplit
        rw [← hsplit, words_append_cons hfirst htake ha, words_cons_of_sep ha]

theorem word_zero (text : List α) : word sep 0 text = (nextWord sep text).1 := by
  rw [word, words_eq]
  split
  · rename_i h
    rw [h]
    rfl
  · rfl

theorem word_succ (n : Nat) (text : List α) :
    word sep (n + 1) text = word sep n (nextWord sep text).2 := by
  rw [word, words_eq]
  split
  · rename_i h
    simp [word, nextWord, dropWhile_of_nextWord h, words]
  · rfl

/-- A word has no separator in it. -/
theorem not_sep_of_mem_word {n : Nat} {text : List α} : ∀ a ∈ word sep n text, sep a = false := by
  induction n generalizing text with
  | zero =>
      intro a ha
      rw [word_zero, nextWord] at ha
      simpa using List.mem_takeWhile_imp ha
  | succ n ih =>
      rw [word_succ]
      exact ih

theorem length_nextWord_add (text : List α) :
    (nextWord sep text).1.length + (nextWord sep text).2.length ≤ text.length := by
  rw [nextWord, ← List.length_append, List.takeWhile_append_dropWhile]
  exact (List.dropWhile_sublist _).length_le

end Words
