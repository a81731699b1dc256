import Gammaboard.Config.Sources
import Mathlib.Logic.Relation

/-!
# Freezing child definitions

The tree of definitions below a document, through inline text and through files, and what freezing
makes of it: the same documents, as text.
-/

namespace Gammaboard.Config

open Lib (bind_eq_ok)
open Utils (isWhiteSpace)

variable {F D J C I : Type} (crate : TomlCrate F D) (files : Files)

/-! ## The tree of definitions -/

/-- A source of the document `d.1`, in the directory `d.2`, is the document `e.1` of `e.2`, read
from `file` or inline. -/
structure Opens (d : Toml F D × String) (file : Option String) (e : Toml F D × String) : Prop where
  opened : ∃ s ∈ d.1.sources, ∃ source raw, ChildRunSource.ofToml s = some source ∧
    openSource files [] d.2 source = .ok (raw, file) ∧ crate.fromStr raw = .ok e.1
  base : e.2 = (file.bind files.parent).getD d.2

def Child (d e : Toml F D × String) : Prop := ∃ file, Opens crate files d file e

variable {crate files}

/-! ## One child -/

section

variable {freeze freeze' : List String → String → Toml F D → Except String (Toml F D)}
  {stack stack' : List String} {base base' : String} {source : ChildRunSource} {v : Toml F D}

/-- A child is read, frozen and checked. -/
theorem resolveChild_iff : resolveChild crate files freeze stack base source = .ok v ↔
    source.validate = .ok () ∧ ∃ raw file document,
      openSource files stack base source = .ok (raw, file) ∧ crate.fromStr raw = .ok document ∧
      freeze (file.toList ++ stack) ((file.bind files.parent).getD base) document = .ok v ∧
      validateDocument v = .ok () := by
  unfold resolveChild
  constructor
  · intro h
    obtain ⟨⟨⟩, hvalid, h⟩ := bind_eq_ok h
    obtain ⟨⟨raw, file⟩, hopen, h⟩ := bind_eq_ok h
    dsimp only at h
    split at h
    · cases h
    · rename_i document hparsed
      obtain ⟨v', hfreeze, h⟩ := bind_eq_ok h
      obtain ⟨⟨⟩, hdocument, h⟩ := bind_eq_ok h
      cases h
      exact ⟨hvalid, raw, file, document, hopen, hparsed, hfreeze, hdocument⟩
  · rintro ⟨hvalid, raw, file, document, hopen, hparsed, hfreeze, hdocument⟩
    rw [hvalid]
    show (openSource files stack base source >>= _) = _
    rw [hopen]
    dsimp only [bind, Except.bind]
    rw [hparsed]
    dsimp only
    rw [hfreeze]
    dsimp only
    rw [hdocument]

end

section

variable {left left' : Nat} {stack stack' : List String} {base base' : String}
  {d v w s s' : Toml F D}

end

end Gammaboard.Config
