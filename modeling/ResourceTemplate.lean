import ResourceTemplate.Main
import ResourceTemplate.Resource
import ResourceTemplate.Session
import ResourceTemplate.Template.JsonPrinter
import ResourceTemplate.Proofs.FieldOrder
import ResourceTemplate.Proofs.StoredIntegers
import ResourceTemplate.Proofs.ScalarStorage
import ResourceTemplate.Proofs.TreeLayout
import ResourceTemplate.Proofs.DecodedLayout
import ResourceTemplate.Proofs.EncodedLayout
import ResourceTemplate.Proofs.RoundTrip
import ResourceTemplate.Proofs.TreeShape
import ResourceTemplate.Proofs.CountFields
import ResourceTemplate.Proofs.EarlierSiblings
import ResourceTemplate.Proofs.SettledTrees
import ResourceTemplate.Proofs.EditedTrees
import ResourceTemplate.Proofs.Resettling
import ResourceTemplate.Proofs.RepeatedEdits
import ResourceTemplate.Proofs.Runs
import ResourceTemplate.Proofs.EncodedPlaces
import ResourceTemplate.Proofs.Reopening
import ResourceTemplate.Proofs.ForbiddenItems
import ResourceTemplate.Proofs.Failures
import ResourceTemplate.Proofs.Conformance
import ResourceTemplate.Proofs.Decimals
import ResourceTemplate.Proofs.TmplEntries
import ResourceTemplate.Proofs.TmplNames
import ResourceTemplate.Proofs.TmplReadings
import ResourceTemplate.Proofs.TmplSurroundings
import ResourceTemplate.Proofs.JoinedTemplates
import ResourceTemplate.Proofs.TmplComposition
import ResourceTemplate.Proofs.JsonTokens
import ResourceTemplate.Proofs.JsonValues
import ResourceTemplate.Proofs.TemplateForm
import ResourceTemplate.Proofs.TemplateText
import ResourceTemplate.Proofs.DecodeErrors
import ResourceTemplate.Proofs.SavedSessions
import ResourceTemplate.Proofs.SoundFields
import ResourceTemplate.Proofs.TmplSoundness
import ResourceTemplate.Proofs.TmplErrors
import ResourceTemplate.Proofs.ListedFields
import ResourceTemplate.Proofs.EventLogs
import ResourceTemplate.Proofs.HeldScalars
import ResourceTemplate.Proofs.Contents
import ResourceTemplate.Proofs.ChangedLevels
import ResourceTemplate.Proofs.Frames
import ResourceTemplate.Proofs.ChangedBytes
import ResourceTemplate.Proofs.ValueChanges
import ResourceTemplate.Proofs.ItemChanges
import ResourceTemplate.Proofs.LongerData
import ResourceTemplate.Proofs.FewestBytes
import ResourceTemplate.Proofs.BareTrees
import ResourceTemplate.Proofs.MovedTrees
import ResourceTemplate.Proofs.CommutingValues
import ResourceTemplate.Proofs.MendedCounts
import ResourceTemplate.Proofs.UndoneInsertions
import ResourceTemplate.Proofs.CanonicalPaths
import ResourceTemplate.Proofs.WordFootprints
import ResourceTemplate.Proofs.AcceptedFields
import ResourceTemplate.Proofs.ShownText
import ResourceTemplate.Proofs.DefaultFilling
import ResourceTemplate.Proofs.TypedText
import ResourceTemplate.Proofs.WrittenIntegers
import ResourceTemplate.Proofs.NamedValues
import ResourceTemplate.Proofs.CheckedLoading
import ResourceTemplate.Proofs.StartingGroups
import ResourceTemplate.Proofs.SettableValues
import ResourceTemplate.Proofs.TypedIntegers
import ResourceTemplate.Proofs.UnlabelledTemplates
import ResourceTemplate.Proofs.UnlabelledTrees
import ResourceTemplate.Proofs.UnlabelledLayout
import ResourceTemplate.Proofs.UnlabelledEdits
import ResourceTemplate.Proofs.TmplAnnotations
import ResourceTemplate.Proofs.BitLabels
