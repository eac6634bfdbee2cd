import DequeMachine.Deque.View

/-!
# DequeMachine.Deque.Printer

Two texts of a deque.

* `render` shows the values: `[1, -2, 3]`.
* `dump` shows the slots and the links between them.
-/

namespace DequeMachine.Deque

/-- The texts of a list, in brackets and separated by commas. -/
def bracketed (texts : List String) : String := "[" ++ ", ".intercalate texts ++ "]"

/-- The values from head to tail. -/
def render (d : Deque) : String := bracketed (d.values.map Value.text)

/-- The text of a link. -/
def linkText : Option Nat → String
  | none => "None"
  | some i => "Some(" ++ Decimal.text i ++ ")"

/-- The text of a slot. -/
def slotText (s : Slot) : String :=
  "Node \x7b value: " ++ Value.text s.value ++ ", prev: " ++ linkText s.prev ++
    ", next: " ++ linkText s.next ++ ", live: " ++ (if s.live then "true" else "false") ++ " \x7d"

/-- The slots by number, the free ones in the order they were freed, and the ends of the list. -/
def dump (d : Deque) : String :=
  "Sequence \x7b nodes: " ++ bracketed (d.slots.toList.map slotText) ++
    ", free: " ++ bracketed (d.free.reverse.map Decimal.text) ++
    ", head: " ++ linkText d.head ++ ", tail: " ++ linkText d.tail ++
    ", len: " ++ Decimal.text d.size ++ " \x7d"

end DequeMachine.Deque
