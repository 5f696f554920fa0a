import AssessmentItems.Text
import AssessmentItems.Escaping
import AssessmentItems.Base64
import AssessmentItems.Digest
import AssessmentItems.Scanning
import AssessmentItems.AnswerClass
import AssessmentItems.JsonWriter
import AssessmentItems.JsonReader
import AssessmentItems.Response
import AssessmentItems.Slots
import AssessmentItems.Decoding
import AssessmentItems.ContentRules
import AssessmentItems.Content
import AssessmentItems.Interaction
import AssessmentItems.Widget
import AssessmentItems.CompileError
import AssessmentItems.ContentMarkup
import AssessmentItems.Item
import AssessmentItems.Structure
import AssessmentItems.Scoring
import AssessmentItems.Fragments
import AssessmentItems.Configuration
import AssessmentItems.Document
import AssessmentItems.Compiler
import AssessmentItems.CommandLine
import AssessmentItems.Main
import AssessmentItems.Proofs.TextClasses
import AssessmentItems.Proofs.FormulaLayout
import AssessmentItems.Proofs.ImplicitProducts
import AssessmentItems.Proofs.Readings
import AssessmentItems.Proofs.PiReadings
import AssessmentItems.Proofs.PiSpellings
import AssessmentItems.Proofs.NumberRules
import AssessmentItems.Proofs.AnswerClosure
import AssessmentItems.Proofs.Relations
import AssessmentItems.Proofs.RelationClasses
import AssessmentItems.Proofs.Disequalities
import AssessmentItems.Proofs.TightTexts
import AssessmentItems.Proofs.DecimalNumerals
import AssessmentItems.Proofs.CoefficientClasses
import AssessmentItems.Proofs.CoefficientValues
import AssessmentItems.Proofs.NumberGroups
import AssessmentItems.Proofs.ClassSize
import AssessmentItems.Proofs.Compilation
import AssessmentItems.Proofs.Pieces
import AssessmentItems.Proofs.Placeholders
import AssessmentItems.Proofs.Tags
import AssessmentItems.Proofs.Substitution
import AssessmentItems.Proofs.SlotChains
import AssessmentItems.Proofs.NestingDepth
import AssessmentItems.Proofs.NodeMarkup
import AssessmentItems.Proofs.RuleBounds
import AssessmentItems.Proofs.FilledMarkup
import AssessmentItems.Proofs.SlotContents
import AssessmentItems.Proofs.RenderedMath
import AssessmentItems.Proofs.Tables
import AssessmentItems.Proofs.SlotTables
import AssessmentItems.Proofs.ResolvedFragments
import AssessmentItems.Proofs.DocumentTags
import AssessmentItems.Proofs.Elements
import AssessmentItems.Proofs.ResponseProcessing
import AssessmentItems.Proofs.Grading
import AssessmentItems.Proofs.LiteralForms
import AssessmentItems.Proofs.WellFormedItems
import AssessmentItems.Proofs.InlineFeedback
import AssessmentItems.Proofs.Outlines
import AssessmentItems.Proofs.WidgetTexts
import AssessmentItems.Proofs.Wording
import AssessmentItems.Proofs.FragmentOrder
import AssessmentItems.Proofs.CheckedFragments
import AssessmentItems.Proofs.UnknownKinds
import AssessmentItems.Proofs.JsonValues
import AssessmentItems.Proofs.WrittenValues
import AssessmentItems.Proofs.ReadDepth
import AssessmentItems.Proofs.ReadRecords
import AssessmentItems.Proofs.ReadItems
import AssessmentItems.Proofs.SerializedItems
import AssessmentItems.Proofs.ShortestNumerals
import AssessmentItems.Proofs.FractionClasses
import AssessmentItems.Proofs.MixedNumbers
import AssessmentItems.Proofs.ClassMembers
import AssessmentItems.Proofs.SpacingClasses
import AssessmentItems.Proofs.CoefficientSpellings
import AssessmentItems.Proofs.PiValues
import AssessmentItems.Proofs.PiTerms
import AssessmentItems.Proofs.PiClasses
import AssessmentItems.Proofs.CommandRuns
import AssessmentItems.Proofs.LegalCharacters
import AssessmentItems.Proofs.LegalSpellings
import AssessmentItems.Proofs.LegalContents
import AssessmentItems.Proofs.LegalSlots
import AssessmentItems.Proofs.LegalDocuments
import AssessmentItems.Proofs.ByteOrder
import AssessmentItems.Proofs.AcceptedValues
import AssessmentItems.Proofs.NumericValues
import AssessmentItems.Proofs.SlotFailures
import AssessmentItems.Proofs.ReachableSlots
import AssessmentItems.Proofs.PlacedNodes
import AssessmentItems.Proofs.ImageDescriptions
import AssessmentItems.Proofs.FinalTexts
import AssessmentItems.Proofs.OuterTags
import AssessmentItems.Proofs.Constructs
import AssessmentItems.Proofs.Verdicts
import AssessmentItems.Proofs.ImageTags
import AssessmentItems.Proofs.Denotations
import AssessmentItems.Proofs.JsonTokens
import AssessmentItems.Proofs.CanonicalTexts
import AssessmentItems.Proofs.RenderedTables
import AssessmentItems.Proofs.OperatorGaps
import AssessmentItems.Proofs.ReportedRules
import AssessmentItems.Proofs.EncodedBytes
import AssessmentItems.Proofs.EmbeddedImages
import AssessmentItems.Proofs.DivisionLoops
import AssessmentItems.Proofs.ExactRatios
import AssessmentItems.Proofs.Entities
import AssessmentItems.Proofs.SlotNames
