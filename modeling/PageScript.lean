import PageScript.Number.Elementary
import PageScript.Proofs.Acyclic
import PageScript.Proofs.Clicks
import PageScript.Proofs.Divisors
import PageScript.Proofs.Encodings
import PageScript.Proofs.EqualTexts
import PageScript.Proofs.EqualityLaws
import PageScript.Proofs.FactorialRecursion
import PageScript.Proofs.HalfUp
import PageScript.Proofs.Handles
import PageScript.Proofs.InspectedNumbers
import PageScript.Proofs.InspectedTrees
import PageScript.Proofs.LongNumerals
import PageScript.Proofs.Marks
import PageScript.Proofs.MomentTexts
import PageScript.Proofs.NearestEven
import PageScript.Proofs.NumberTexts
import PageScript.Proofs.NumeralBytes
import PageScript.Proofs.NumeralParts
import PageScript.Proofs.Places
import PageScript.Proofs.Positions
import PageScript.Proofs.PrimeFactors
import PageScript.Proofs.PromptHistory
import PageScript.Proofs.Quoting
import PageScript.Proofs.ReadLoop
import PageScript.Proofs.Renaming
import PageScript.Proofs.Repetition
import PageScript.Proofs.TailWalk
import PageScript.Proofs.TypedLines
import PageScript.Proofs.Units
import PageScript.Proofs.WholeTexts
import PageScript.Script.Run
