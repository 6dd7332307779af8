import CharacterRules.Diagnostic.Report
import CharacterRules.Main
import CharacterRules.Proofs.Repair.BestState
import CharacterRules.Proofs.Ruleset.SharedFact
import CharacterRules.Proofs.Rule.Order
import CharacterRules.Proofs.Generation.Fill
import CharacterRules.Proofs.Repair.Trim
import CharacterRules.Proofs.Repair.Freeze
import CharacterRules.Proofs.Repair.Termination
import CharacterRules.Proofs.Rule.Inert
import CharacterRules.Proofs.Note.Inert
import CharacterRules.Proofs.Generation.Acceptance
import CharacterRules.Proofs.Formula.Grammar
import CharacterRules.Proofs.Formula.Division
import CharacterRules.Proofs.Ruleset.Compile
import CharacterRules.Proofs.Number.Text
import CharacterRules.Proofs.Prerequisite.Reading
import CharacterRules.Proofs.Trait.Registration
import CharacterRules.Proofs.Rule.Impact
import CharacterRules.Proofs.Number.Sum
import CharacterRules.Proofs.Rule.Summand
import CharacterRules.Proofs.Rule.Reordering
import CharacterRules.Proofs.Formula.Literal
import CharacterRules.Proofs.Note.Outline
import CharacterRules.Proofs.Note.Recompile
import CharacterRules.Proofs.Note.Placeholder
import CharacterRules.Proofs.Note.Numbering
import CharacterRules.Proofs.Formula.Soundness
import CharacterRules.Proofs.Catalog.AttributeList
import CharacterRules.Proofs.Formula.Display
import CharacterRules.Proofs.Prerequisite.Display
import CharacterRules.Proofs.Rule.Repetition
import CharacterRules.Proofs.Prerequisite.Composition
import CharacterRules.Proofs.Prerequisite.QuotedValue
import CharacterRules.Proofs.Note.Merging
import CharacterRules.Proofs.Number.Product
import CharacterRules.Proofs.Note.LiteralChange
import CharacterRules.Proofs.Note.Section
import CharacterRules.Proofs.Note.ExpressionChange
import CharacterRules.Proofs.Ruleset.SkillName
import CharacterRules.Proofs.Number.Neighbour
import CharacterRules.Proofs.Repair.PlannedFix
import CharacterRules.Proofs.Repair.Confinement
import CharacterRules.Proofs.Generation.Picks
import CharacterRules.Proofs.Ruleset.SkillCost
import CharacterRules.Proofs.Repair.DiePrediction
import CharacterRules.Proofs.Rule.Bookkeeping
import CharacterRules.Proofs.Formula.Lossless
import CharacterRules.Proofs.Repair.Saving
import CharacterRules.Proofs.CommandLine.TraitRules
import CharacterRules.Proofs.CommandLine.TraitRules
