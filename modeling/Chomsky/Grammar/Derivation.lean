import Chomsky.Grammar.Basic

/-!
# Derivations

What it means for a grammar to generate a word, said twice and without any algorithm: by the
splitting of a word along the rules, and by the rewriting of sentential forms.  Rules whose
symbols are still characters have a rewriting relation of their own, which does not depend on the
numbering of symbols.

## Main definitions

* `Chomsky.Grammar.Derives` — a nonterminal derives a word.
* `Chomsky.Grammar.Rewrites`, `Chomsky.Grammar.RewritesMany` — one step and many steps on
  sentential forms.
* `Chomsky.NamedRule.Rewrites`, `Chomsky.NamedRule.RewritesMany` — the same on texts, by rules on
  characters.
-/

namespace Chomsky

namespace Grammar

/-- A nonterminal derives the terminals of its rules, and what its pairs derive one after the
other. -/
inductive Derives (g : Grammar) : Symbol → Word → Prop where
  /-- By a rule with a terminal. -/
  | terminal {a t : Symbol} (h : ⟨a, .terminal t⟩ ∈ g.rules) : Derives g a [t]
  /-- By a rule with a pair. -/
  | pair {a b c : Symbol} {u v : Word} (h : ⟨a, .pair b c⟩ ∈ g.rules) (hu : Derives g b u)
      (hv : Derives g c v) : Derives g a (u ++ v)

/-- One occurrence of a nonterminal is replaced by a right-hand side. -/
inductive Rewrites (g : Grammar) : Word → Word → Prop where
  /-- The replacement happens between two unchanged parts. -/
  | step (u v : Word) {r : Rule} (h : r ∈ g.rules) :
      Rewrites g (u ++ r.lhs :: v) (u ++ r.rhs.symbols ++ v)

/-- Finitely many replacements, possibly none. -/
inductive RewritesMany (g : Grammar) : Word → Word → Prop where
  /-- No replacement. -/
  | refl (u : Word) : RewritesMany g u u
  /-- One more replacement at the end. -/
  | tail {u v w : Word} (h : RewritesMany g u v) (s : Rewrites g v w) : RewritesMany g u w

end Grammar

namespace NamedRule

/-- One occurrence of a left-hand side is replaced by its right-hand side. -/
inductive Rewrites (rules : List NamedRule) : List Char → List Char → Prop where
  /-- The replacement happens between two unchanged parts. -/
  | step (u v : List Char) {r : NamedRule} (h : r ∈ rules) :
      Rewrites rules (u ++ r.lhs :: v) (u ++ r.rhs ++ v)

/-- Finitely many replacements, possibly none. -/
inductive RewritesMany (rules : List NamedRule) : List Char → List Char → Prop where
  /-- No replacement. -/
  | refl (u : List Char) : RewritesMany rules u u
  /-- One more replacement at the end. -/
  | tail {u v w : List Char} (h : RewritesMany rules u v) (s : Rewrites rules v w) :
      RewritesMany rules u w

end NamedRule

end Chomsky
