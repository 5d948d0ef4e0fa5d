import FileDepot.Main
import FileDepot.Web.Exchange
import FileDepot.Proofs.Blob.Path
import FileDepot.Proofs.Blob.Tree
import FileDepot.Proofs.Store.Rows
import FileDepot.Proofs.Upload.Hearing
import FileDepot.Proofs.Upload.Parents
import FileDepot.Proofs.Upload.Progress
import FileDepot.Proofs.Session.System
import FileDepot.Proofs.Session.Operations
import FileDepot.Proofs.Session.Custody
import FileDepot.Proofs.Session.Contents
import FileDepot.Proofs.Blob.Veil
import FileDepot.Proofs.Store.Without
import FileDepot.Proofs.Session.Veil
import FileDepot.Proofs.Session.Unseen
import FileDepot.Proofs.Multipart.Reader
import FileDepot.Proofs.Session.Seclusion
import FileDepot.Proofs.Store.Forest
import FileDepot.Proofs.Traffic.Forest
import FileDepot.Proofs.Store.Counters
import FileDepot.Proofs.Traffic.Effects
import FileDepot.Proofs.Traffic.Records
import FileDepot.Proofs.Traffic.Books
import FileDepot.Proofs.Traffic.Ledger
import FileDepot.Proofs.Store.Statements
import FileDepot.Proofs.Traffic.Statements
import FileDepot.Proofs.Session.Statements
import FileDepot.Proofs.Upload.Booking
import FileDepot.Proofs.Session.Accounts
import FileDepot.Proofs.Upload.Ceiling
import FileDepot.Proofs.Traffic.Grants
import FileDepot.Proofs.Blob.Staging
import FileDepot.Proofs.Upload.Bodies
import FileDepot.Proofs.Upload.Whole
import FileDepot.Proofs.Traffic.Overlap
import FileDepot.Proofs.Store.Listings
import FileDepot.Proofs.Store.Parts
import FileDepot.Proofs.Blob.Parts
import FileDepot.Proofs.Session.Parts
import FileDepot.Proofs.Session.Isolation
import FileDepot.Proofs.Store.Tour
import FileDepot.Proofs.Store.Updates
import FileDepot.Proofs.Session.Tour
import FileDepot.Proofs.Store.Climb
import FileDepot.Proofs.Store.Migrations
import FileDepot.Proofs.Store.Calls
import FileDepot.Proofs.Store.Adjustments
import FileDepot.Proofs.Blob.Removal
import FileDepot.Proofs.Traffic.Clearing
import FileDepot.Proofs.Text.Names
import FileDepot.Proofs.Session.Outcomes
import FileDepot.Proofs.Web.Service
import FileDepot.Proofs.Upload.Rows
import FileDepot.Proofs.Web.Names
import FileDepot.Proofs.Web.Identity
import FileDepot.Proofs.Web.Answers
import FileDepot.Proofs.Web.Serving
import FileDepot.Proofs.Blob.Jail
import FileDepot.Proofs.Text.Percent
import FileDepot.Proofs.Web.Attachment
import FileDepot.Proofs.Web.Origins
import FileDepot.Proofs.Web.Undoing
import FileDepot.Proofs.Web.References
import FileDepot.Proofs.Web.Validation
import FileDepot.Proofs.Text.ClientNames
import FileDepot.Proofs.Sniff.Accesses
import FileDepot.Proofs.Upload.Quota
