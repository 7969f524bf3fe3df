/-
# Processes that share a world

A system runs any number of processes over one world. A process is started,
performs the operations of its program one by one, returns or is killed, and
the world also changes by itself (`Step`); a run is any interleaving of these
(`Run`).
-/
import FluxPam.Interaction.Prog
import FluxPam.Interaction.Steps
import Mathlib.Logic.Function.Basic

namespace Interaction

variable {P Op Tag Act σ α β ε : Type} {Res : Op → Type}

/-- What the processes of a system run and how the world answers them. -/
structure System (P Op : Type) (Res : Op → Type) (Tag Act α σ : Type) where
  body : P → Tag → Prog Op Res α
  exec : P → σ → (o : Op) → Res o → σ → Prop
  start : P → Tag → σ → σ → Prop
  finish : P → Tag → α → σ → σ → Prop
  kill : P → Tag → σ → σ → Prop
  world : Act → σ → σ → Prop

/-- What happens in a step. -/
inductive Label (P Op : Type) (Res : Op → Type) (Tag Act α : Type) where
  | op (p : P) (t : Tag) (o : Op) (r : Res o)
  | start (p : P) (t : Tag)
  | finish (p : P) (t : Tag) (a : α)
  | kill (p : P) (t : Tag)
  | world (a : Act)

/-- The world and the live processes, each with what it still has to do. -/
structure Config (P Op : Type) (Res : Op → Type) (Tag α σ : Type) where
  world : σ
  procs : P → Option (Tag × Prog Op Res α)

namespace System

variable [DecidableEq P] (S : System P Op Res Tag Act α σ)

inductive Step : Config P Op Res Tag α σ → Label P Op Res Tag Act α →
    Config P Op Res Tag α σ → Prop where
  | op {w w' procs p t o k} {r : Res o} : procs p = some (t, .op o k) → S.exec p w o r w' →
      Step ⟨w, procs⟩ (.op p t o r) ⟨w', Function.update procs p (some (t, k r))⟩
  | start {w w' procs p t} : procs p = none → S.start p t w w' →
      Step ⟨w, procs⟩ (.start p t) ⟨w', Function.update procs p (some (t, S.body p t))⟩
  | finish {w w' procs p t a} : procs p = some (t, .pure a) → S.finish p t a w w' →
      Step ⟨w, procs⟩ (.finish p t a) ⟨w', Function.update procs p none⟩
  | kill {w w' procs p t x} : procs p = some (t, x) → S.kill p t w w' →
      Step ⟨w, procs⟩ (.kill p t) ⟨w', Function.update procs p none⟩
  | world {w w' procs a} : S.world a w w' → Step ⟨w, procs⟩ (.world a) ⟨w', procs⟩

/-- A run: any interleaving of the processes' steps and the world's. -/
abbrev Run : Config P Op Res Tag α σ → List (Label P Op Res Tag Act α) →
    Config P Op Res Tag α σ → Prop := Steps S.Step

end System

end Interaction
