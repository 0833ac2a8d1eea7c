import StripsReach.SExpr
import StripsReach.Fault

/-!
# Requirements

The features that a domain may ask for. All of the language's keys are known, and two of them
are supported: plain preconditions and effects, and types.
-/

namespace StripsReach

/-- A feature of the language. -/
inductive Requirement where
  | strips
  | typing
  | negativePreconditions
  | disjunctivePreconditions
  | equality
  | existentialPreconditions
  | universalPreconditions
  | quantifiedPreconditions
  | conditionalEffects
  | fluents
  | numericFluents
  | objectFluents
  | adl
  | durativeActions
  | durationInequalities
  | continuousEffects
  | derivedPredicates
  | timedInitialLiterals
  | preferences
  | constraints
  | actionCosts
  deriving DecidableEq, Repr

namespace Requirement

def key : Requirement → Name
  | strips => ":strips"
  | typing => ":typing"
  | negativePreconditions => ":negative-preconditions"
  | disjunctivePreconditions => ":disjunctive-preconditions"
  | equality => ":equality"
  | existentialPreconditions => ":existential-preconditions"
  | universalPreconditions => ":universal-preconditions"
  | quantifiedPreconditions => ":quantified-preconditions"
  | conditionalEffects => ":conditional-effects"
  | fluents => ":fluents"
  | numericFluents => ":numeric-fluents"
  | objectFluents => ":object-fluents"
  | adl => ":adl"
  | durativeActions => ":durative-actions"
  | durationInequalities => ":duration-inequalities"
  | continuousEffects => ":continuous-effects"
  | derivedPredicates => ":derived-predicates"
  | timedInitialLiterals => ":timed-initial-literals"
  | preferences => ":preferences"
  | constraints => ":constraints"
  | actionCosts => ":action-costs"

/-- All requirements, in the order in which they are numbered. -/
def all : List Requirement :=
  [strips, typing, negativePreconditions, disjunctivePreconditions, equality,
    existentialPreconditions, universalPreconditions, quantifiedPreconditions,
    conditionalEffects, fluents, numericFluents, objectFluents, adl, durativeActions,
    durationInequalities, continuousEffects, derivedPredicates, timedInitialLiterals,
    preferences, constraints, actionCosts]

/-- The requirement's number, from zero. -/
def index (r : Requirement) : Nat := all.idxOf r

def ofKey? (key : Name) : Option Requirement := all.find? fun r => r.key = key

def isSupported (r : Requirement) : Bool := r = strips || r = typing

def ofSExpr : SExpr → Except Fault Requirement
  | .list _ => .error (.expectedName "requirements")
  | .word key =>
    match ofKey? key with
    | some r => if r.isSupported then .ok r else .error (.unsupportedRequirement key)
    | none => .error (.unsupportedRequirement key)

def ofItems (items : List SExpr) : Except Fault (List Requirement) := items.mapM ofSExpr

end Requirement

end StripsReach
