import CssSieve.Registry.Basic

/-!
# Warnings that are shown once

A warning is about a part of the program. The store remembers the text of each warning shown, and
the same text is not shown again.
-/

namespace CssSieve

namespace Warning

/-- The text by which a warning is remembered. -/
def key (w : Warning) : String := s!"[{w.component}] {w.message}"

end Warning

/-- The texts of the warnings shown so far. -/
structure WarningStore where
  shown : List String := []
deriving DecidableEq, Repr

namespace WarningStore

instance : EmptyCollection WarningStore := ⟨{}⟩

/-- Whether a warning has been shown. -/
def contains (s : WarningStore) (w : Warning) : Bool := s.shown.contains w.key

/-- Remembers a warning, and says whether it is to be shown now. -/
def warn (s : WarningStore) (w : Warning) : WarningStore × Bool :=
  if s.contains w then (s, false) else (⟨w.key :: s.shown⟩, true)

/-- Remembers several warnings. -/
def warnAll (s : WarningStore) (ws : List Warning) : WarningStore :=
  ws.foldl (fun s w => (s.warn w).1) s

end WarningStore

end CssSieve
