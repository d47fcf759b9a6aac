import TemplateInventory.Inventory.Copies
import TemplateInventory.Main
import TemplateInventory.Override
import TemplateInventory.Proofs.Edits
import TemplateInventory.Proofs.LoadOrder
import TemplateInventory.Proofs.Overrides
import TemplateInventory.Proofs.Pairing
import TemplateInventory.Proofs.Queries
import TemplateInventory.Proofs.Reload
import TemplateInventory.Proofs.Unification
import TemplateInventory.Proofs.Upgrades
import TemplateInventory.Proofs.Questions
import TemplateInventory.Proofs.Scopes
import TemplateInventory.Proofs.Archive
import TemplateInventory.Proofs.Expansion
import TemplateInventory.Proofs.Deleting
import TemplateInventory.Proofs.Watching
import TemplateInventory.Proofs.Refusals
import TemplateInventory.Proofs.Verdicts
import TemplateInventory.Proofs.Replacing
import TemplateInventory.Proofs.Forms
import TemplateInventory.Proofs.Grammar
import TemplateInventory.Proofs.KeySteps
import TemplateInventory.Proofs.Nesting
import TemplateInventory.Proofs.Latest
import TemplateInventory.Proofs.Filings
import TemplateInventory.Proofs.PartsAgain
import TemplateInventory.Proofs.Remembered
import TemplateInventory.Proofs.Recopying
import TemplateInventory.Proofs.Skeletons
import TemplateInventory.Proofs.Suffixes
import TemplateInventory.Proofs.Fetching
