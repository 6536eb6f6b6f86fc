/-
  ClientGen.Proofs.Literal

  Decorators that are written with quoted literals.  They can be read back, so no
  two routes have the same decorator.
-/
import ClientGen.OpenApi.Document
import ClientGen.Proofs.QuotedText

namespace ClientGen

/-! ## Decorators of methods -/

/-- The decorator of a client method that requests a route. -/
def routeDecorator (method : HttpMethod) (route : String) : String :=
  "@" ++ method.decorator ++ "(" ++ TypeScript.stringLiteral route ++ ")"

theorem HttpMethod.decorator_inj {m m' : HttpMethod} (h : m.decorator = m'.decorator) : m = m' := by
  cases m <;> cases m' <;> first | rfl | exact absurd h (by decide)

theorem HttpMethod.takeWhile_decorator (m : HttpMethod) (rest : List Char) :
    (m.decorator.toList ++ '(' :: rest).takeWhile (· != '(') = m.decorator.toList := by
  have hletters : m.decorator.toList.all (· != '(') = true := by
    cases m <;> rfl
  rw [List.takeWhile_append_of_pos (List.all_eq_true.1 hletters), List.takeWhile_cons_of_neg (by decide),
    List.append_nil]

/-- A decorator tells its method and its route. -/
theorem routeDecorator_inj {m m' : HttpMethod} {route route' : String}
    (h : routeDecorator m route = routeDecorator m' route') : m = m' ∧ route = route' := by
  have htext (m : HttpMethod) (route : String) : (routeDecorator m route).toList
      = '@' :: (m.decorator.toList ++ '(' :: ((TypeScript.stringLiteral route).toList ++ [')'])) := by
    simp [routeDecorator, String.toList_append]
  have hchars := congrArg String.toList h
  rw [htext, htext, List.cons.injEq] at hchars
  -- the method is read up to the bracket, and the route is what is left inside
  have hmethod := congrArg (List.takeWhile (· != '(')) hchars.2
  rw [HttpMethod.takeWhile_decorator, HttpMethod.takeWhile_decorator, String.toList_inj] at hmethod
  obtain rfl := HttpMethod.decorator_inj hmethod
  have hroute := List.append_cancel_left hchars.2
  rw [List.cons.injEq] at hroute
  have hliteral := String.toList_inj.1 (List.append_cancel_right hroute.2)
  exact ⟨rfl, TypeScript.stringLiteral_inj hliteral⟩

end ClientGen
