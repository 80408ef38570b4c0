import Simultaneous.Kernel.Dogleg
import Simultaneous.Kernel.LevenbergMarquardt
import Simultaneous.Kernel.Newton

/-!
The settings of a solver, and the methods that they choose among.
-/

namespace Simultaneous

inductive Method where
  | newtonLineSearch
  | dogleg
  | levenbergMarquardt
deriving Repr, DecidableEq

namespace Method

def all : List Method := [newtonLineSearch, dogleg, levenbergMarquardt]

def name : Method → String
  | newtonLineSearch => "NewtonLineSearch"
  | dogleg => "Dogleg"
  | levenbergMarquardt => "LevenbergMarquardt"

/-- A method as a user writes it: in any case, with hyphens and underscores anywhere. -/
def plainName (s : String) : String :=
  String.ofList ((Text.lower s.toList).filter fun c => c != '-' && c != '_')

def ofUser (s : String) : Except String Method :=
  let plain := plainName s
  if plain = "newton" ∨ plain = "newtonlinesearch" then .ok newtonLineSearch
  else if plain = "dogleg" then .ok dogleg
  else if plain = "lm" ∨ plain = "levenbergmarquardt" then .ok levenbergMarquardt
  else .error plain

def unknownMessage (plain : String) : String := "unknown method '" ++ plain ++ "'"

def kernel {α : Type} [Scalar α] (m : Method) (solver : LinearSolver α)
    (options : KernelOptions α) : Kernel α :=
  match m with
  | newtonLineSearch => Newton.kernel solver options
  | dogleg => Dogleg.kernel solver options
  | levenbergMarquardt => LevenbergMarquardt.kernel solver options

end Method

structure Settings (α : Type) where
  singleMethod : Method
  multiMethod : Method
  /-- the starting value of unknowns that have none of their own -/
  defaultInitial : α
  maxIterations : Nat
  trustRadius : α
  gradientPrecision : α
  maxJump : α
  precision : α
  /-- seconds that a block may take -/
  timeout : α
  pollMilliseconds : Nat
  angleMode : AngleMode
  /-- how many starting unknowns the decomposition tries -/
  startCandidates : Nat

namespace Settings

variable {α : Type} [Scalar α]

open Scalar in
def standard : Settings α where
  singleMethod := .newtonLineSearch
  multiMethod := .newtonLineSearch
  defaultInitial := one
  maxIterations := 200
  trustRadius := one
  gradientPrecision := decimal 1 (-10)
  maxJump := decimal 1 3
  precision := decimal 1 (-9)
  timeout := decimal 10 0
  pollMilliseconds := 50
  angleMode := .radians
  startCandidates := 5

omit [Scalar α] in
def kernelOptions (s : Settings α) : KernelOptions α where
  maxIterations := s.maxIterations
  precision := s.precision
  gradientPrecision := s.gradientPrecision
  maxJump := s.maxJump
  trustRadius := s.trustRadius

omit [Scalar α] in
def methodFor (s : Settings α) (size : Nat) : Method :=
  if size = 1 then s.singleMethod else s.multiMethod

omit [Scalar α] in
def pollInterval (s : Settings α) : Nat := max s.pollMilliseconds 1

end Settings

end Simultaneous
