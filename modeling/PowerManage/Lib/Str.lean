import Mathlib

/-!
# Strings

A string is the list of its characters, so that what reads it is a recursion on lists and what is
said about it a statement about lists.  A literal stands for its characters.
-/

abbrev Str := List Char

instance : Coe String Str := ⟨String.toList⟩
