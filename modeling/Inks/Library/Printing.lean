import Mathlib.Data.List.Basic

/-
  Printers whose texts can be read back. What a readable
  printer prints, with anything behind it, tells the value
  and what comes behind. Such printers can be put one after
  the other, and repeated up to an end mark.

  Key definitions include:
    * `Printing.Readable`

  Key theorems include:
    * `Printing.readable_line`
    * `Printing.Readable.pair`
    * `Printing.Readable.many`
-/

namespace Printing

variable {α β γ : Type*}

------------------------------------------------------------
-- Readable Printers
------------------------------------------------------------

/- On some values: two texts agree only for one value. -/
def Readable
    (P : α → Prop)
    (print : α → List γ) : Prop :=
  ∀ a b rest rest', P a → P b →
    print a ++ rest = print b ++ rest' →
    a = b ∧ rest = rest'

/- A line is all up to the first separator. -/
theorem readable_line
    (sep : γ) :
    Readable
      (fun line : List γ => sep ∉ line)
      (fun line => line ++ [sep]) := by
  intro a b rest rest' hNotA hNotB hSame
  simp only [List.append_assoc, List.singleton_append]
    at hSame
  induction a generalizing b with
  | nil =>
      cases b with
      | nil => exact ⟨rfl, (List.cons.inj hSame).2⟩
      | cons d b =>
          have hFirst : sep = d := (List.cons.inj hSame).1
          exact absurd (by simp [hFirst]) hNotB
  | cons c a ih =>
      cases b with
      | nil =>
          have hFirst : c = sep := (List.cons.inj hSame).1
          exact absurd (by simp [hFirst]) hNotA
      | cons d b =>
          rcases List.cons.inj hSame with ⟨rfl, hLater⟩
          rcases ih b (fun hMem => hNotA (by simp [hMem]))
              (fun hMem => hNotB (by simp [hMem]))
              hLater with
            ⟨rfl, hRest⟩
          exact ⟨rfl, hRest⟩

namespace Readable

variable {P : α → Prop}
variable {Q : β → Prop}
variable {print : α → List γ}
variable {print' : β → List γ}

/- The same text stands in front of each value. -/
theorem behind
    (hPrint : Readable P print)
    (front : List γ) :
    Readable P (fun a => front ++ print a) := by
  intro a b rest rest' hA hB hSame
  rw [List.append_assoc, List.append_assoc] at hSame
  exact hPrint a b rest rest' hA hB
    (List.append_cancel_left hSame)

/- What follows may be anything that the value decides. -/
theorem followed
    (hPrint : Readable P print)
    (back : α → List γ) :
    Readable P (fun a => print a ++ back a) := by
  intro a b rest rest' hA hB hSame
  rw [List.append_assoc, List.append_assoc] at hSame
  rcases hPrint a b _ _ hA hB hSame with ⟨rfl, hBack⟩
  exact ⟨rfl, List.append_cancel_left hBack⟩

theorem pair
    (hPrint : Readable P print)
    (hPrint' : Readable Q print') :
    Readable
      (fun ab : α × β => P ab.1 ∧ Q ab.2)
      (fun ab => print ab.1 ++ print' ab.2) := by
  rintro ⟨a, b⟩ ⟨a', b'⟩ rest rest' ⟨hA, hB⟩ ⟨hA', hB'⟩
    hSame
  rw [List.append_assoc, List.append_assoc] at hSame
  rcases hPrint a a' _ _ hA hA' hSame with ⟨rfl, hSecond⟩
  rcases hPrint' b b' _ _ hB hB' hSecond with ⟨rfl, hRest⟩
  exact ⟨rfl, hRest⟩

/- Values are read up to a mark with which none begins. -/
theorem many
    (hPrint : Readable P print)
    {stop : List γ}
    (hStop :
      ∀ a rest rest', P a →
        print a ++ rest ≠ stop ++ rest') :
    Readable
      (fun as : List α => ∀ a ∈ as, P a)
      (fun as => as.flatMap print ++ stop) := by
  intro as
  induction as with
  | nil =>
      intro bs rest rest' _ hBs hSame
      cases bs with
      | nil =>
          exact ⟨rfl, List.append_cancel_left hSame⟩
      | cons b bs =>
          simp only [List.flatMap_cons, List.append_assoc]
            at hSame
          exact
            absurd hSame.symm
              (hStop b _ rest (hBs b (by simp)))
  | cons a as ih =>
      intro bs rest rest' hAs hBs hSame
      cases bs with
      | nil =>
          simp only [List.flatMap_cons, List.append_assoc]
            at hSame
          exact
            absurd hSame (hStop a _ rest' (hAs a (by simp)))
      | cons b bs =>
          simp only [List.flatMap_cons, List.append_assoc]
            at hSame
          rcases hPrint a b _ _ (hAs a (by simp))
              (hBs b (by simp)) hSame with
            ⟨rfl, hLater⟩
          rw [← List.append_assoc, ← List.append_assoc]
            at hLater
          rcases ih bs rest rest'
              (fun c hMem => hAs c (by simp [hMem]))
              (fun c hMem => hBs c (by simp [hMem]))
              hLater with
            ⟨rfl, hRest⟩
          exact ⟨rfl, hRest⟩

end Readable

------------------------------------------------------------
-- Marks
------------------------------------------------------------

/- Texts that begin differently differ. -/
theorem append_ne_append
    {front front' : List γ}
    (n : Nat)
    (hLength : n ≤ front.length)
    (hLength' : n ≤ front'.length)
    (hDiffer : front.take n ≠ front'.take n)
    (rest rest' : List γ) :
    front ++ rest ≠ front' ++ rest' := by
  intro hSame
  have hTake := congrArg (List.take n) hSame
  rw [List.take_append_of_le_length hLength,
    List.take_append_of_le_length hLength'] at hTake
  exact hDiffer hTake

end Printing
