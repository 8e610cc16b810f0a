import Lexemes.Proofs.Outcome
import Lexemes.Proofs.PositionDump

namespace Lexemes

open String

section Reading

variable {α β : Type} {front cs : List Char} {line column : Nat}

def cutAtLastColon (cs : List Char) : List Char × List Char :=
  ((cs.reverse.dropWhile (· != ':')).tail.reverse, (cs.reverse.takeWhile (· != ':')).reverse)

/-- Line and column from the end of a line. -/
def readPlace (cs : List Char) : Nat × Nat :=
  let column := cutAtLastColon cs
  let line := cutAtLastColon column.1
  ((cutNumber line.2).1, (cutNumber column.2).1)

def everySecond : List α → List α
  | _ :: b :: rest => b :: everySecond rest
  | _ => []

def readPlaces (text : String) : List (Nat × Nat) :=
  (everySecond (text.toList.splitOn '\n')).map readPlace

theorem cutAtLastColon_append (h : ':' ∉ cs) :
    cutAtLastColon (front ++ ':' :: cs) = (front, cs) := by
  have hrun : ∀ x ∈ cs.reverse, (x != ':') = true := by
    intro x hx
    refine bne_iff_ne.mpr fun hcolon ↦ h ?_
    rwa [hcolon, List.mem_reverse] at hx
  have hhead : ∀ x ∈ (':' :: front.reverse).head?, (x != ':') = false := by
    rintro x ⟨⟩
    rfl
  have hreverse : (front ++ ':' :: cs).reverse = cs.reverse ++ ':' :: front.reverse := by simp
  rw [cutAtLastColon, hreverse, takeWhile_run hrun hhead, dropWhile_run hrun hhead, List.tail_cons,
    List.reverse_reverse, List.reverse_reverse]

theorem not_mem_number {c : Char} (hc : c.isDigit = false) (n : Nat) : c ∉ (toString n).toList := by
  rw [toList_toString]
  intro hmem
  exact Json.ne_of_isDigit (Json.Numeral.isDigit_toDigits c hmem) hc rfl

theorem cutNumber_toString (n : Nat) : (cutNumber (toString n).toList).1 = n := by
  have hcut : cutNumber ((toString n).toList ++ []) = (n, []) := cutNumber_append (by simp)
  rw [← List.append_nil (toString n).toList, hcut]

theorem readPlace_append : readPlace
    (front ++ ':' :: ((toString line).toList ++ ':' :: (toString column).toList)) =
      (line, column) := by
  have hcolon (n : Nat) : ':' ∉ (toString n).toList := not_mem_number rfl n
  have hcolumn : cutAtLastColon ((front ++ ':' :: (toString line).toList) ++
      ':' :: (toString column).toList) = (front ++ ':' :: (toString line).toList, _) :=
    cutAtLastColon_append (hcolon column)
  rw [List.append_assoc, List.cons_append] at hcolumn
  rw [readPlace, hcolumn, cutAtLastColon_append (hcolon line), cutNumber_toString,
    cutNumber_toString]

theorem everySecond_pairs (f g : α → β) (as : List α) (last : β) :
    everySecond (as.flatMap (fun a ↦ [f a, g a]) ++ [last]) = as.map g := by
  induction as with
  | nil => rfl
  | cons a as ih => exact congrArg (g a :: ·) ih

end Reading

namespace Report

def messageLine (r : Report) : List Char :=
  ("LexingError: " ++ r.message).toList

def placeLine (r : Report) : List Char :=
  ("  --> " ++ r.path ++ ":" ++ toString r.line ++ ":" ++ toString r.column).toList

def displayLines (r : Report) : List (List Char) :=
  [r.messageLine, r.placeLine]

def place (r : Report) : Nat × Nat :=
  (r.line, r.column)

theorem toList_display (r : Report) : r.display.toList = r.displayLines.flatMap (· ++ ['\n']) := by
  have harrow : "\n  --> ".toList = '\n' :: "  --> ".toList := by decide
  have hend : "\n".toList = ['\n'] := by decide
  unfold display
  simp only [displayLines, messageLine, placeLine, toList_append, harrow, hend, List.flatMap_cons,
    List.flatMap_nil, List.append_assoc, List.cons_append, List.nil_append, List.append_nil]

theorem readPlace_placeLine (r : Report) : readPlace r.placeLine = r.place := by
  have hline : r.placeLine = ("  --> " ++ r.path).toList ++
      ':' :: ((toString r.line).toList ++ ':' :: (toString r.column).toList) := by
    have hcolon : ":".toList = [':'] := by decide
    simp only [placeLine, toList_append, hcolon, List.append_assoc, List.cons_append,
      List.nil_append]
  rw [hline, readPlace_append]
  rfl

end Report

theorem Reason.message_unbroken {text : String} (h : '\n' ∉ text.toList) :
    '\n' ∉ (ofText text).message.toList := by
  cases htext : text.toList with
  | nil =>
    have hnone : ofText text = noText := by rw [ofText, htext]
    rw [hnone]
    decide
  | cons c cs =>
    have hc : c ≠ '\n' := fun hc ↦ h (by simp [htext, hc])
    rw [ofText_eq htext]
    unfold message
    split_ifs
    · simp only [toList_append, List.mem_append, not_or]
      exact ⟨by decide, h⟩
    · decide
    · decide
    · simp only [toList_append, List.mem_append, not_or]
      exact ⟨⟨by decide, h⟩, by decide⟩
    · simp only [toList_append, List.mem_append, not_or, toList_singleton, List.mem_singleton]
      exact ⟨by decide, hc.symm⟩

theorem Report.displayLines_unbroken {path : String} {t : Token} (hpath : '\n' ∉ path.toList)
    (ht : t.OneLine) : ∀ l ∈ (onToken path t).displayLines, '\n' ∉ l := by
  have hnumber (n : Nat) : '\n' ∉ (toString n).toList := not_mem_number rfl n
  simp only [displayLines, List.forall_mem_cons, List.not_mem_nil, false_imp_iff, implies_true,
    and_true]
  constructor
  · simp only [messageLine, toList_append, List.mem_append, not_or]
    exact ⟨by decide, Reason.message_unbroken ht⟩
  · simp only [placeLine, toList_append, List.mem_append, not_or]
    exact ⟨⟨⟨⟨⟨by decide, hpath⟩, by decide⟩, hnumber _⟩, by decide⟩, hnumber _⟩

section Stream

variable {path source : String}

theorem splitOn_reportText (hpath : '\n' ∉ path.toList) :
    (reportText path source).toList.splitOn '\n' =
      (Report.ofTokens path (tokens source)).flatMap Report.displayLines ++ [[]] := by
  have htext : (reportText path source).toList = ((Report.ofTokens path (tokens source)).flatMap
      Report.displayLines).flatMap (· ++ ['\n']) := by
    rw [reportText, toList_join, List.flatMap_map, List.flatMap_assoc]
    exact List.flatMap_congr fun r _ ↦ r.toList_display
  rw [htext, splitOn_ended]
  intro l hl
  obtain ⟨r, hr, hl⟩ := List.mem_flatMap.mp hl
  rw [Report.ofTokens_eq] at hr
  obtain ⟨t, ht, rfl⟩ := List.mem_map.mp hr
  exact Report.displayLines_unbroken hpath (oneLine_tokensAt t (List.mem_of_mem_filter ht)) l hl

theorem readPlaces_reportText (hpath : '\n' ∉ path.toList) :
    readPlaces (reportText path source) =
      (Report.ofTokens path (tokens source)).map Report.place := by
  have hsecond := everySecond_pairs Report.messageLine Report.placeLine
    (Report.ofTokens path (tokens source)) []
  rw [readPlaces, splitOn_reportText hpath]
  refine (congrArg _ hsecond).trans ?_
  rw [List.map_map]
  exact List.map_congr_left fun r _ ↦ r.readPlace_placeLine

/-- The reports on a source take two lines each, the message and the place, and the places read back
from them are those of the illegal tokens and grow from each to the next. -/
theorem reports_line_by_line (source : String) (hpath : '\n' ∉ path.toList) :
    let ts := (tokens source).filter Token.isIllegal
    let rs := Report.ofTokens path (tokens source)
    (reportText path source).toList.splitOn '\n' = rs.flatMap Report.displayLines ++ [[]] ∧
      List.Forall₂ (fun t r ↦ r.path = path ∧ r.place = (t.line, t.column)) ts rs ∧
      readPlaces (reportText path source) = ts.map (fun t ↦ (t.line, t.column)) ∧
      (readPlaces (reportText path source)).Pairwise fun p q ↦ toLex p < toLex q := by
  intro ts rs
  have hrs : rs = ts.map (Report.onToken path) := Report.ofTokens_eq path (tokens source)
  have hplaces : readPlaces (reportText path source) = ts.map (fun t ↦ (t.line, t.column)) := by
    have hread : readPlaces (reportText path source) = rs.map Report.place :=
      readPlaces_reportText hpath
    rw [hread, hrs, List.map_map]
    rfl
  refine ⟨splitOn_reportText hpath, ?_, hplaces, ?_⟩
  · rw [hrs, List.forall₂_map_right_iff, List.forall₂_same]
    exact fun t _ ↦ ⟨rfl, rfl⟩
  · rw [hplaces, List.pairwise_map]
    have horder : (tokens source).Pairwise fun t u ↦ t.key < u.key := pairwise_key_tokensAt
    exact horder.filter _

/-- The path looks like a place itself, and so does a text. -/
theorem places_behind_colons :
    let path := "C:1:2"
    let source := "\"a:3:4\r\n\u2003'"
    '\n' ∉ path.toList ∧ readPlaces (reportText path source) = [(1, 1), (2, 2)] := by
  intro path source
  have hpath : '\n' ∉ path.toList := by decide
  obtain ⟨-, -, hplaces, -⟩ := reports_line_by_line source hpath
  exact ⟨hpath, hplaces.trans (by decide +kernel)⟩

end Stream

end Lexemes
