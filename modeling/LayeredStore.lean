import LayeredStore.Dictionary
import LayeredStore.Text.Alphanumeric
import LayeredStore.Text.Lowercase
import LayeredStore.Text.Blank
import LayeredStore.Decimal.Layout
import LayeredStore.Decimal.Numeral
import LayeredStore.Value.Comparison
import LayeredStore.Record
import LayeredStore.QueryError
import LayeredStore.Condition
import LayeredStore.Condition.Clause
import LayeredStore.Query
import LayeredStore.Json.Reading
import LayeredStore.Settings
import LayeredStore.Storage.DiskMap
import LayeredStore.Storage.Metered
import LayeredStore.Storage.TypedMap
import LayeredStore.Table
import LayeredStore.Site
import LayeredStore.Proofs.DiskEntries
import LayeredStore.Proofs.ExpiringMap
import LayeredStore.Proofs.MapContract
import LayeredStore.Proofs.MapEquivalence
import LayeredStore.Proofs.SiteVault
import LayeredStore.Proofs.Acknowledgement
import LayeredStore.Proofs.DocumentReading
import LayeredStore.Proofs.Population
import LayeredStore.Proofs.Forgetting
import LayeredStore.Proofs.Opening
import LayeredStore.Proofs.TableStackRuns
import LayeredStore.Proofs.ValueOrder
import LayeredStore.Proofs.RenderedClauses
import LayeredStore.Proofs.Frames
import LayeredStore.Proofs.CellViews
import LayeredStore.Proofs.CopyExpiry
import LayeredStore.Proofs.TableAppends
import LayeredStore.Proofs.Isolation
import LayeredStore.Proofs.Agreement
import LayeredStore.Proofs.GatedTables
import LayeredStore.Proofs.UnnamedFields
import LayeredStore.Proofs.ClassifiedErrors
import LayeredStore.Proofs.SeparateMembers
import LayeredStore.Proofs.OnlyLayer
import LayeredStore.Proofs.DroppedTables
import LayeredStore.Proofs.ExactWrites
import LayeredStore.Proofs.MeterAccounts
import LayeredStore.Proofs.Retries
import LayeredStore.Proofs.StoredForms
import LayeredStore.Proofs.Patterns
import LayeredStore.Proofs.LayerCalls
import LayeredStore.Proofs.TablePuts
import LayeredStore.Proofs.ReadEffects
import LayeredStore.Proofs.LocalRefusals
import LayeredStore.Proofs.ClauseErrors
import LayeredStore.Proofs.SortedPages
import LayeredStore.Proofs.Placeholders
import LayeredStore.Proofs.DiskTransactions
import LayeredStore.Proofs.TypedFilters
import LayeredStore.Proofs.IntegerTexts
import LayeredStore.Proofs.PatternCharacters
import LayeredStore.Proofs.Lifespans
import LayeredStore.Proofs.OrderTexts
import LayeredStore.Proofs.NamedInputs
import LayeredStore.Proofs.Declarations
