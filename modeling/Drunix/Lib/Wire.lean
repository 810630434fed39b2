import Mathlib.Data.List.Basic

namespace Drunix.Lib

/-- A message encoding: `unmarshal` fails on bytes that are no encoding of a message. -/
structure Wire (β α : Type) where
  marshal : α → β
  unmarshal : β → Option α

namespace Wire

variable {α β : Type}

def RoundTrips (w : Wire β α) (a : α) : Prop :=
  w.unmarshal (w.marshal a) = some a

instance [DecidableEq α] (w : Wire β α) (a : α) : Decidable (w.RoundTrips a) :=
  inferInstanceAs (Decidable (_ = _))

theorem marshal_injOn {w : Wire β α} {a b : α} (ha : w.RoundTrips a) (hb : w.RoundTrips b)
    (h : w.marshal a = w.marshal b) : a = b := by
  have hs : some a = some b := by
    rw [← ha, ← hb, h]
  exact Option.some.inj hs

def ofTable [DecidableEq α] [DecidableEq β] (fallback : β) (table : List (α × β)) : Wire β α where
  marshal a := ((table.find? fun e => e.1 = a).map Prod.snd).getD fallback
  unmarshal b := (table.find? fun e => e.2 = b).map Prod.fst

end Wire

end Drunix.Lib
