/-
Choices in how C-flat source is read.
-/
namespace WordMachine.Cflat

structure Options where
  /-- Read `<:` `:>` `<%` `%>` and `%:` as the characters they stand for. -/
  digraphs : Bool := false
  /-- Replace trigraphs such as `??=` before anything else. -/
  trigraphs : Bool := false
  /-- Accept keywords of full C that C-flat gives no meaning to. -/
  lenient : Bool := false
  deriving Repr, DecidableEq

end WordMachine.Cflat
