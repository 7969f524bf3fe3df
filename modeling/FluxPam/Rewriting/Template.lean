/-
# Line templates

A template is fixed text with spans between, runs of characters of a class that
are captured: what is left of extended regular expressions when they are
anchored at both ends and have no alternatives. A line may be cut up along a
template in several ways (`Matches`). Where every span ends before a character
that is not of its class (`Delimited`) there is one way at most, and reading each
span as far as it goes finds it (`scan_eq_some`), so that it does not matter which
match a tool prefers. `rewrite` puts the captures into another text, and leaves
alone what does not match.
-/
import Mathlib.Data.List.TakeWhile
import Mathlib.Tactic.Common

namespace Rewriting

variable {α : Type*}

/-- Fixed text, or at least `least` characters of a class. -/
inductive Segment (α : Type*) where
  | lit (s : List α)
  | span (p : α → Bool) (least : ℕ)

abbrev Template (α : Type*) := List (Segment α)

/-- The line is the template's text, with `caps` for its spans. -/
inductive Matches : Template α → List α → List (List α) → Prop where
  | nil : Matches [] [] []
  | lit {s cs : List α} {ts caps} : Matches ts cs caps → Matches (.lit s :: ts) (s ++ cs) caps
  | span {p : α → Bool} {least : ℕ} {c cs : List α} {ts caps} : (∀ a ∈ c, p a = true) → least ≤ c.length →
      Matches ts cs caps → Matches (.span p least :: ts) (c ++ cs) (c :: caps)

/-- The captures of a line, each span read as far as it goes. -/
def scan [DecidableEq α] : Template α → List α → Option (List (List α))
  | [], [] => some []
  | [], _ :: _ => none
  | .lit s :: ts, cs => if s.isPrefixOf cs then scan ts (cs.drop s.length) else none
  | .span p least :: ts, cs =>
    if least ≤ (cs.takeWhile p).length then (scan ts (cs.dropWhile p)).map (cs.takeWhile p :: ·) else none

/-- What follows cannot continue a run of the class. -/
def Stops (p : α → Bool) : Template α → Prop
  | [] => True
  | .lit (a :: _) :: _ => p a = false
  | _ => False

/-- Every span ends before fixed text that is not of its class, or with the line. -/
def Delimited : Template α → Prop
  | [] => True
  | .lit _ :: ts => Delimited ts
  | .span p _ :: ts => Stops p ts ∧ Delimited ts

section Scan

variable {p : α → Bool} {least : ℕ} {s c cs : List α} {ts : Template α} {caps caps' : List (List α)}

/-- The line goes on with a character that stops the span. -/
theorem Matches.stops (h : Matches ts cs caps) (hs : Stops p ts) : ∀ a ∈ cs.head?, p a = false := by
  cases h with
  | nil => simp
  | @lit s cs ts caps h =>
    cases s with
    | nil => exact hs.elim
    | cons b s =>
      have hb : p b = false := hs
      simpa using hb
  | span => exact hs.elim

variable [DecidableEq α]

theorem scan_lit_append : scan (.lit s :: ts) (s ++ cs) = scan ts cs := by
  rw [scan, if_pos (by simp), List.drop_left]

theorem scan_lit_none (h : s.isPrefixOf cs = false) : scan (.lit s :: ts) cs = none := by
  simp [scan, h]

/-- A span is read up to the first character that is not of its class. -/
theorem scan_span_append (hc : ∀ a ∈ c, p a = true) (hcs : ∀ a ∈ cs.head?, p a = false)
    (hlen : least ≤ c.length) : scan (.span p least :: ts) (c ++ cs) = (scan ts cs).map (c :: ·) := by
  have htake : cs.takeWhile p = [] := by
    cases cs with
    | nil => rfl
    | cons a cs => simp [hcs a rfl]
  have hdrop : cs.dropWhile p = cs := by
    cases cs with
    | nil => rfl
    | cons a cs => simp [hcs a rfl]
  have htake' : (c ++ cs).takeWhile p = c := by
    rw [List.takeWhile_append_of_pos hc, htake, List.append_nil]
  have hdrop' : (c ++ cs).dropWhile p = cs := by
    rw [List.dropWhile_append_of_pos hc, hdrop]
  rw [scan, htake', hdrop', if_pos hlen]

theorem matches_of_scan : ∀ {ts : Template α} {cs : List α} {caps : List (List α)},
    scan ts cs = some caps → Matches ts cs caps
  | [], [], caps, h => by
    have hcaps : [] = caps := by simpa [scan] using h
    rw [← hcaps]
    exact .nil
  | .lit s :: ts, cs, caps, h => by
    simp only [scan, Option.ite_none_right_eq_some] at h
    obtain ⟨tail, rfl⟩ := List.isPrefixOf_iff_prefix.mp h.1
    rw [List.drop_left] at h
    exact .lit (matches_of_scan h.2)
  | .span p least :: ts, cs, caps, h => by
    simp only [scan, Option.ite_none_right_eq_some, Option.map_eq_some_iff] at h
    obtain ⟨hlen, rest, hrest, rfl⟩ := h
    have hmatches : Matches (.span p least :: ts) (cs.takeWhile p ++ cs.dropWhile p) (cs.takeWhile p :: rest) :=
      .span (fun a ha => List.mem_takeWhile_imp ha) hlen (matches_of_scan hrest)
    rwa [List.takeWhile_append_dropWhile] at hmatches

theorem Matches.scan_eq (h : Matches ts cs caps) (hd : Delimited ts) : scan ts cs = some caps := by
  induction h with
  | nil => rfl
  | lit h ih => rw [scan_lit_append, ih hd]
  | @span p least c cs ts caps hc hlen h ih =>
    have hstops : ∀ a ∈ cs.head?, p a = false := h.stops hd.1
    rw [scan_span_append hc hstops hlen, ih hd.2]
    rfl

theorem scan_eq_some (hd : Delimited ts) : scan ts cs = some caps ↔ Matches ts cs caps :=
  ⟨matches_of_scan, fun h => h.scan_eq hd⟩

end Scan

section Spans

variable {q : α → Prop} {cs : List α} {ts : Template α} {caps : List (List α)}

/-- All that a segment stands for has the property. -/
def Segment.Within (q : α → Prop) : Segment α → Prop
  | .lit s => ∀ a ∈ s, q a
  | .span p _ => ∀ a, p a = true → q a

/-- So has the line. -/
theorem Matches.within (h : Matches ts cs caps) (hq : ∀ seg ∈ ts, seg.Within q) : ∀ a ∈ cs, q a := by
  induction h with
  | nil => simp
  | lit h ih =>
    have hlit := hq _ List.mem_cons_self
    have hrest := ih fun seg hseg => hq seg (List.mem_cons_of_mem _ hseg)
    exact List.forall_mem_append.mpr ⟨hlit, hrest⟩
  | span hc hlen h ih =>
    have hspan := hq _ List.mem_cons_self
    have hrest := ih fun seg hseg => hq seg (List.mem_cons_of_mem _ hseg)
    exact List.forall_mem_append.mpr ⟨fun a ha => hspan a (hc a ha), hrest⟩

/-- A capture is part of the line. -/
theorem Matches.part_of (h : Matches ts cs caps) : ∀ c ∈ caps, c <:+: cs := by
  induction h with
  | nil => simp
  | lit h ih => exact fun c hc => (ih c hc).trans (List.suffix_append _ _).isInfix
  | @span p least c cs ts caps hc hlen h ih =>
    refine List.forall_mem_cons.mpr ⟨(List.prefix_append c cs).isInfix, fun d hd => ?_⟩
    exact (ih d hd).trans (List.suffix_append c cs).isInfix

end Spans

/-! ### Rewriting -/

/-- A part of a replacement: text, or what a span captured. -/
inductive Piece (α : Type*) where
  | text (s : List α)
  | group (i : ℕ)

def fill (parts : List (Piece α)) (caps : List (List α)) : List α :=
  parts.flatMap fun
    | .text s => s
    | .group i => caps.getD i []

section Rewrite

variable [DecidableEq α] {ts : Template α} {parts : List (Piece α)} {cs : List α} {caps : List (List α)}

/-- A line that matches becomes the replacement. -/
def rewrite (ts : Template α) (parts : List (Piece α)) (cs : List α) : List α :=
  match scan ts cs with
  | some caps => fill parts caps
  | none => cs

theorem rewrite_of_matches (hd : Delimited ts) (h : Matches ts cs caps) :
    rewrite ts parts cs = fill parts caps := by
  rw [rewrite, h.scan_eq hd]

theorem rewrite_cases (ts : Template α) (parts : List (Piece α)) (cs : List α) :
    (∃ caps, Matches ts cs caps) ∨ rewrite ts parts cs = cs := by
  cases h : scan ts cs with
  | none => exact .inr (by rw [rewrite, h])
  | some caps => exact .inl ⟨caps, matches_of_scan h⟩

end Rewrite

end Rewriting
